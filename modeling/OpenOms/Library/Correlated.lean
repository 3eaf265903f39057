import Mathlib.Logic.Function.Basic

/-!
Requests answered by messages that name them. A call registers a waiter under its
key, sends, and waits on a channel of its own until a deadline; a message is
gathered by the waiter of its key, and the last of a reply delivers what was
gathered. Several calls may run under one key. Nothing here knows what is asked.
-/
namespace Correlated
variable {K M R E : Type}

/-- How replies are read: the key a message names, what is gathered from it, and
    whether it ends its reply. -/
structure Protocol (K M R : Type) where
  key : M → Option K
  start : R
  feed : R → M → R
  final : M → Bool

inductive Stage (R E : Type) where
  | sending
  | waiting
  -- the channel was looked at in vain, and the deadline has passed
  | expiring
  -- it has failed, its waiter still to be removed
  | dropped (why : E)
  | returned (result : Except E R)

/-- `since` counts the messages before it registered. While `linked`, the waiter of its
    key is its own. -/
structure Call (K R E : Type) where
  key : K
  since : Nat
  linked : Bool
  answer : Option R
  stage : Stage R E

structure Waiter (R : Type) where
  acc : R
  call : Nat
  deriving DecidableEq, Repr

structure Desk (K M R E : Type) where
  received : List M
  waiters : K → Option (Waiter R)
  calls : List (Call K R E)

def Desk.start : Desk K M R E := ⟨[], fun _ => none, []⟩

inductive Action (K M E : Type) where
  | register (key : K)
  | sent (i : Nat) (result : Except E Unit)
  | receive (m : M)
  | take (i : Nat)
  | cut (i : Nat) (why : E)
  | poll (i : Nat)
  | timeOut (i : Nat) (why : E)
  | cleanUp (i : Nat)

def Stage.pending : Stage R E → Bool
  | .sending | .waiting | .expiring => true
  | _ => false

def Stage.isReturned : Stage R E → Bool
  | .returned _ => true
  | _ => false

def Call.unlink (c : Call K R E) : Call K R E := { c with linked := false }

def Call.deliver (c : Call K R E) (v : R) : Call K R E :=
  { c with linked := false, answer := if c.stage.pending then some v else c.answer }

def Call.at (c : Call K R E) (stage : Stage R E) : Call K R E := { c with stage }

variable [DecidableEq K]

def forget (s : Desk K M R E) (k : K) : Desk K M R E :=
  match s.waiters k with
  | some w =>
    { s with waiters := Function.update s.waiters k none, calls := s.calls.modify w.call Call.unlink }
  | none => s

def register (p : Protocol K M R) (s : Desk K M R E) (k : K) : Desk K M R E :=
  let cleared := forget s k
  { cleared with
    waiters := Function.update cleared.waiters k (some ⟨p.start, cleared.calls.length⟩)
    calls := cleared.calls ++ [⟨k, cleared.received.length, true, none, .sending⟩] }

def receive (p : Protocol K M R) (s : Desk K M R E) (m : M) : Desk K M R E :=
  let heard := { s with received := s.received ++ [m] }
  match p.key m with
  | none => heard
  | some k =>
    match s.waiters k with
    | none => heard
    | some w =>
      let acc := p.feed w.acc m
      if p.final m then
        { heard with
          waiters := Function.update s.waiters k none
          calls := s.calls.modify w.call fun c => c.deliver acc }
      else { heard with waiters := Function.update s.waiters k (some { w with acc }) }

def move (s : Desk K M R E) (i : Nat) (change : Call K R E → Call K R E) : Desk K M R E :=
  { s with calls := s.calls.modify i change }

def step (p : Protocol K M R) (s : Desk K M R E) : Action K M E → Option (Desk K M R E)
  | .register k => some (register p s k)
  | .receive m => some (receive p s m)
  | .sent i result =>
    match s.calls[i]? with
    | some ⟨_, _, _, _, .sending⟩ =>
      match result with
      | .ok _ => some (move s i (·.at .waiting))
      | .error why => some (move s i (·.at (.dropped why)))
    | _ => none
  | .take i =>
    match s.calls[i]? with
    | some ⟨_, _, _, some v, .waiting⟩ => some (move s i (·.at (.returned (.ok v))))
    | _ => none
  | .cut i why =>
    match s.calls[i]? with
    | some ⟨_, _, false, none, .waiting⟩ => some (move s i (·.at (.dropped why)))
    | _ => none
  | .poll i =>
    match s.calls[i]? with
    | some ⟨_, _, _, none, .waiting⟩ => some (move s i (·.at .expiring))
    | _ => none
  | .timeOut i why =>
    match s.calls[i]? with
    | some ⟨_, _, _, _, .expiring⟩ => some (move s i (·.at (.dropped why)))
    | _ => none
  | .cleanUp i =>
    match s.calls[i]? with
    | some ⟨k, _, _, _, .dropped why⟩ =>
      some (move (forget s k) i (·.at (.returned (.error why))))
    | _ => none

def own (p : Protocol K M R) (received : List M) (c : Call K R E) : List M :=
  (received.drop c.since).filter fun m => p.key m = some c.key

def Complete (p : Protocol K M R) (messages : List M) (v : R) : Prop :=
  ∃ before last rest, messages = before ++ last :: rest ∧ (∀ m ∈ before, p.final m = false) ∧
    p.final last = true ∧ v = (before ++ [last]).foldl p.feed p.start

/-- A call answers with the first reply it was sent, all of it and nothing else, and a
    waiter is that of a call which has not returned. -/
structure Answers (p : Protocol K M R) (s : Desk K M R E) : Prop where
  answer : ∀ c ∈ s.calls, ∀ v, c.stage = .returned (.ok v) → Complete p (own p s.received c) v
  waiter : ∀ k w, s.waiters k = some w →
    ∃ c : Call K R E, s.calls[w.call]? = some c ∧ c.key = k ∧ c.stage.isReturned = false

/-- The invariant: linked calls and waiters answer to each other, and a waiter has what
    came since its call registered. -/
structure Inv (p : Protocol K M R) (s : Desk K M R E) : Prop where
  since : ∀ (i : Nat) (c : Call K R E), s.calls[i]? = some c → c.since ≤ s.received.length
  linked : ∀ (i : Nat) (c : Call K R E), s.calls[i]? = some c →
    (c.linked = true ↔ ∃ w, s.waiters c.key = some w ∧ w.call = i)
  owned : ∀ k w, s.waiters k = some w → ∃ c : Call K R E, s.calls[w.call]? = some c ∧ c.key = k
  gathered : ∀ (i : Nat) (c : Call K R E) w, s.calls[i]? = some c → s.waiters c.key = some w → w.call = i →
    w.acc = (own p s.received c).foldl p.feed p.start ∧ (∀ m ∈ own p s.received c, p.final m = false)
  unanswered : ∀ (i : Nat) (c : Call K R E), s.calls[i]? = some c → c.linked = true →
    c.answer = none ∧ c.stage.isReturned = false
  complete : ∀ (i : Nat) (c : Call K R E), s.calls[i]? = some c →
    ∀ v, c.answer = some v ∨ c.stage = .returned (.ok v) → Complete p (own p s.received c) v

variable {p : Protocol K M R} {s : Desk K M R E}

omit [DecidableEq K] in
theorem complete_append {messages more : List M} {v : R} (complete : Complete p messages v) :
    Complete p (messages ++ more) v := by
  obtain ⟨before, last, rest, rfl, quiet, ends, gathered⟩ := complete
  exact ⟨before, last, rest ++ more, by simp, quiet, ends, gathered⟩

theorem own_snoc {received : List M} {c : Call K R E} (m : M) (since : c.since ≤ received.length) :
    own p (received ++ [m]) c =
      own p received c ++ if p.key m = some c.key then [m] else [] := by
  rw [own, List.drop_append_of_le_length since, List.filter_append, List.filter_cons,
    List.filter_nil, ← own]
  simp

theorem start_inv : Inv p (.start : Desk K M R E) := by
  constructor <;> simp [Desk.start]

omit [DecidableEq K] in
theorem modify_get {calls : List (Call K R E)} {i j : Nat} {change : Call K R E → Call K R E}
    {c : Call K R E} : (calls.modify i change)[j]? = some c ↔
      ∃ old, calls[j]? = some old ∧ c = if i = j then change old else old := by
  rw [List.getElem?_modify]
  cases calls[j]? with
  | none => simp
  | some old => simp [eq_comm]

omit [DecidableEq K] in
theorem append_get {calls : List (Call K R E)} {last c : Call K R E} {j : Nat} :
    (calls ++ [last])[j]? = some c ↔ calls[j]? = some c ∨ (j = calls.length ∧ c = last) := by
  rcases Nat.lt_trichotomy j calls.length with before | rfl | after_
  · rw [List.getElem?_append_left before]
    simp [Nat.ne_of_lt before]
  · rw [List.getElem?_concat_length, List.getElem?_eq_none (Nat.le_refl _)]
    simp [eq_comm]
  · rw [List.getElem?_eq_none (by simp; omega), List.getElem?_eq_none (by omega)]
    simp [Nat.ne_of_gt after_]

theorem move_inv {i : Nat} {stage : Stage R E} (inv : Inv p s)
    (open_ : ∀ c, s.calls[i]? = some c → c.linked = true → stage.isReturned = false)
    (right : ∀ c, s.calls[i]? = some c → ∀ v, stage = .returned (.ok v) →
      Complete p (own p s.received c) v) : Inv p (move s i (·.at stage)) := by
  constructor
  · intro j c there
    obtain ⟨old, was, rfl⟩ := modify_get.mp there
    have since := inv.since j old was
    split <;> exact since
  · intro j c there
    obtain ⟨old, was, rfl⟩ := modify_get.mp there
    have linked := inv.linked j old was
    split <;> exact linked
  · intro k w there
    obtain ⟨c, was, key⟩ := inv.owned k w there
    refine ⟨_, modify_get.mpr ⟨c, was, rfl⟩, ?_⟩
    split <;> exact key
  · intro j c w there
    obtain ⟨old, was, rfl⟩ := modify_get.mp there
    have gathered := inv.gathered j old w was
    split <;> exact gathered
  · intro j c there linked
    obtain ⟨old, was, rfl⟩ := modify_get.mp there
    split at linked
    · rename_i same
      subst same
      rw [if_pos rfl]
      exact ⟨(inv.unanswered i old was linked).1, open_ old was linked⟩
    · rename_i other
      rw [if_neg other]
      exact inv.unanswered j old was linked
  · intro j c there v had
    obtain ⟨old, was, rfl⟩ := modify_get.mp there
    split at had
    · rename_i same
      subst same
      rw [if_pos rfl]
      rcases had with has | returned
      · exact inv.complete i old was v (Or.inl has)
      · exact right old was v returned
    · rename_i other
      rw [if_neg other]
      exact inv.complete j old was v had

theorem forget_free (s : Desk K M R E) (k : K) : (forget s k).waiters k = none := by
  unfold forget
  split
  · simp
  · assumption

theorem forget_inv (k : K) (inv : Inv p s) : Inv p (forget s k) := by
  unfold forget
  split
  · rename_i w there
    obtain ⟨mine, at_, key⟩ := inv.owned k w there
    have calls : ∀ {j c}, (s.calls.modify w.call Call.unlink)[j]? = some c →
        ∃ old, s.calls[j]? = some old ∧ c.key = old.key ∧ c.since = old.since ∧
          c.answer = old.answer ∧ c.stage = old.stage ∧
            (c.linked = true ↔ old.linked = true ∧ j ≠ w.call) := by
      intro j c found
      obtain ⟨old, was, rfl⟩ := modify_get.mp found
      refine ⟨old, was, ?_⟩
      by_cases same : w.call = j
      · simp [same, Call.unlink]
      · simp [same, Ne.symm same]
    have owns : ∀ {c old : Call K R E}, c.key = old.key → c.since = old.since →
        own p s.received c = own p s.received old := by
      intro c old sameKey sameSince
      rw [own, own, sameKey, sameSince]
    constructor
    · intro j c found
      obtain ⟨old, was, _, since, _⟩ := calls found
      rw [since]
      exact inv.since j old was
    · intro j c found
      obtain ⟨old, was, keys, _, _, _, linked⟩ := calls found
      rw [linked, inv.linked j old was, keys]
      by_cases same : old.key = k
      · constructor
        · rintro ⟨⟨w', there', rfl⟩, other⟩
          rw [same, there] at there'
          cases there'
          exact absurd rfl other
        · rintro ⟨w', there', _⟩
          simp [same] at there'
      · simp only [Function.update_of_ne same]
        constructor
        · exact fun both => both.1
        · rintro ⟨w', there', rfl⟩
          refine ⟨⟨w', there', rfl⟩, ?_⟩
          intro call
          rw [call, at_] at was
          cases was
          exact same key
    · intro k' w' there'
      by_cases same : k' = k
      · simp [same] at there'
      · simp only [Function.update_of_ne same] at there'
        obtain ⟨c, was, key'⟩ := inv.owned k' w' there'
        refine ⟨_, modify_get.mpr ⟨c, was, rfl⟩, ?_⟩
        split <;> exact key'
    · intro j c w' found there' call
      obtain ⟨old, was, keys, since, _⟩ := calls found
      by_cases same : c.key = k
      · simp [same] at there'
      · simp only [Function.update_of_ne same] at there'
        rw [keys] at there'
        dsimp only
        rw [owns keys since]
        exact inv.gathered j old w' was there' call
    · intro j c found link
      obtain ⟨old, was, _, _, answer, stage, linked⟩ := calls found
      rw [answer, stage]
      exact inv.unanswered j old was (linked.mp link).1
    · intro j c found v
      obtain ⟨old, was, keys, since, answer, stage, _⟩ := calls found
      rw [answer, stage, owns keys since]
      exact inv.complete j old was v
  · exact inv

theorem register_inv (k : K) (inv : Inv p s) : Inv p (register p s k) := by
  have cleared := forget_inv k inv
  have free := forget_free s k
  simp only [register]
  generalize forget s k = t at cleared free
  have calls : ∀ {j c}, (t.calls ++ [⟨k, t.received.length, true, none, .sending⟩])[j]? = some c →
      t.calls[j]? = some c ∨
        (j = t.calls.length ∧ c = ⟨k, t.received.length, true, none, .sending⟩) :=
    fun found => append_get.mp found
  have earlier : ∀ {j} {c : Call K R E}, t.calls[j]? = some c → j < t.calls.length := by
    intro j c found
    exact (List.getElem?_eq_some_iff.mp found).1
  have unlinked : ∀ {j : Nat} {c : Call K R E}, t.calls[j]? = some c → c.key = k → c.linked = false := by
    intro j c was key
    cases linked : c.linked with
    | false => rfl
    | true =>
      obtain ⟨w, there, _⟩ := (cleared.linked j c was).mp linked
      rw [key, free] at there
      cases there
  constructor
  · intro j c found
    rcases calls found with was | ⟨rfl, rfl⟩
    · exact cleared.since j c was
    · exact Nat.le_refl _
  · intro j c found
    rcases calls found with was | ⟨rfl, rfl⟩
    · by_cases same : c.key = k
      · have before := earlier was
        simp only [unlinked was same, Bool.false_eq_true, same, Function.update_self, false_iff]
        rintro ⟨w, there, call⟩
        cases there
        exact absurd call (Nat.ne_of_gt before)
      · simp only [Function.update_of_ne same]
        exact cleared.linked j c was
    · simp
  · intro k' w there
    by_cases same : k' = k
    · simp only [same, Function.update_self, Option.some.injEq] at there
      subst there
      exact ⟨_, List.getElem?_concat_length, same.symm⟩
    · simp only [Function.update_of_ne same] at there
      obtain ⟨c, was, key⟩ := cleared.owned k' w there
      exact ⟨c, by rw [List.getElem?_append_left (earlier was), was], key⟩
  · intro j c w found there call
    rcases calls found with was | ⟨rfl, rfl⟩
    · by_cases same : c.key = k
      · have before := earlier was
        simp only [same, Function.update_self, Option.some.injEq] at there
        subst there
        exact absurd call (Nat.ne_of_gt before)
      · simp only [Function.update_of_ne same] at there
        exact cleared.gathered j c w was there call
    · simp only [Function.update_self, Option.some.injEq] at there
      subst there
      simp [own]
  · intro j c found linked
    rcases calls found with was | ⟨rfl, rfl⟩
    · exact cleared.unanswered j c was linked
    · exact ⟨rfl, rfl⟩
  · intro j c found v had
    rcases calls found with was | ⟨rfl, rfl⟩
    · exact cleared.complete j c was v had
    · simp at had

theorem since_longer {j : Nat} {c : Call K R E} (m : M) (inv : Inv p s) (was : s.calls[j]? = some c) :
    c.since ≤ (s.received ++ [m]).length := by
  have since := inv.since j c was
  simp only [List.length_append, List.length_singleton]
  omega

theorem complete_longer {j : Nat} {c : Call K R E} {v : R} (m : M) (inv : Inv p s)
    (was : s.calls[j]? = some c) (had : c.answer = some v ∨ c.stage = .returned (.ok v)) :
    Complete p (own p (s.received ++ [m]) c) v := by
  rw [own_snoc m (inv.since j c was)]
  exact complete_append (inv.complete j c was v had)

theorem own_elsewhere {j : Nat} {c : Call K R E} {m : M} (inv : Inv p s) (was : s.calls[j]? = some c)
    (other : ¬ p.key m = some c.key) : own p (s.received ++ [m]) c = own p s.received c := by
  rw [own_snoc m (inv.since j c was), if_neg other, List.append_nil]

theorem unheard_inv {m : M} (inv : Inv p s) (none_ : ∀ k, p.key m = some k → s.waiters k = none) :
    Inv p { s with received := s.received ++ [m] } := by
  refine ⟨fun j c was => since_longer m inv was, inv.linked, inv.owned, ?_, inv.unanswered,
    fun j c was v had => complete_longer m inv was had⟩
  intro j c w was there call
  have other : ¬ p.key m = some c.key := by
    intro named
    rw [none_ _ named] at there
    cases there
  dsimp only
  rw [own_elsewhere inv was other]
  exact inv.gathered j c w was there call

structure Hears (p : Protocol K M R) (s : Desk K M R E) (m : M) (w : Waiter R) (mine : Call K R E) :
    Prop where
  there : s.calls[w.call]? = some mine
  linked : mine.linked = true
  only : ∀ (j : Nat) (c : Call K R E), s.calls[j]? = some c → c.key = mine.key → c.linked = true →
    j = w.call
  owns : own p (s.received ++ [m]) mine = own p s.received mine ++ [m]
  quiet : ∀ m ∈ own p s.received mine, p.final m = false
  fed : p.feed w.acc m = (own p s.received mine ++ [m]).foldl p.feed p.start

theorem waiter_hears {m : M} {k : K} {w : Waiter R} (inv : Inv p s) (named : p.key m = some k)
    (there : s.waiters k = some w) : ∃ mine : Call K R E, mine.key = k ∧ Hears p s m w mine := by
  obtain ⟨mine, at_, rfl⟩ := inv.owned k w there
  obtain ⟨gathered, quiet⟩ := inv.gathered w.call mine w at_ there rfl
  refine ⟨mine, rfl, at_, (inv.linked w.call mine at_).mpr ⟨w, there, rfl⟩, ?_, ?_, quiet, ?_⟩
  · intro j c was same linked
    obtain ⟨w', there', call⟩ := (inv.linked j c was).mp linked
    rw [same, there] at there'
    cases there'
    exact call.symm
  · rw [own_snoc m (inv.since _ _ at_), if_pos named]
  · rw [List.foldl_append, ← gathered]
    rfl

theorem deliver_inv {m : M} {w : Waiter R} {mine : Call K R E} (inv : Inv p s)
    (named : p.key m = some mine.key) (hears : Hears p s m w mine) (ends : p.final m = true) :
    Inv p { s with
      received := s.received ++ [m]
      waiters := Function.update s.waiters mine.key none
      calls := s.calls.modify w.call fun c => c.deliver (p.feed w.acc m) } := by
  have complete : Complete p (own p (s.received ++ [m]) mine) (p.feed w.acc m) :=
    ⟨own p s.received mine, m, [], by rw [hears.owns], hears.quiet, ends, hears.fed⟩
  constructor
  · intro j c found
    obtain ⟨old, was, rfl⟩ := modify_get.mp found
    have since := since_longer m inv was
    split <;> exact since
  · intro j c found
    obtain ⟨old, was, rfl⟩ := modify_get.mp found
    by_cases call : w.call = j
    · subst call
      cases was.symm.trans hears.there
      simp [Call.deliver]
    · rw [if_neg call]
      by_cases same : old.key = mine.key
      · simp only [same, Function.update_self]
        constructor
        · intro link
          exact absurd (hears.only j old was same link).symm call
        · rintro ⟨_, gone, _⟩
          cases gone
      · simp only [Function.update_of_ne same]
        exact inv.linked j old was
  · intro k' w' there'
    by_cases same : k' = mine.key
    · simp [same] at there'
    · simp only [Function.update_of_ne same] at there'
      obtain ⟨c, was, key'⟩ := inv.owned k' w' there'
      refine ⟨_, modify_get.mpr ⟨c, was, rfl⟩, ?_⟩
      split <;> exact key'
  · intro j c w' found there' call
    obtain ⟨old, was, rfl⟩ := modify_get.mp found
    by_cases mineToo : w.call = j
    · subst mineToo
      cases was.symm.trans hears.there
      simp [Call.deliver] at there'
    · rw [if_neg mineToo] at there' ⊢
      by_cases same : old.key = mine.key
      · simp [same] at there'
      · simp only [Function.update_of_ne same] at there'
        dsimp only
        rw [own_elsewhere inv was (by rw [named]; simpa using Ne.symm same)]
        exact inv.gathered j old w' was there' call
  · intro j c found link
    obtain ⟨old, was, rfl⟩ := modify_get.mp found
    split at link
    · simp [Call.deliver] at link
    · rename_i other
      rw [if_neg other]
      exact inv.unanswered j old was link
  · intro j c found v had
    obtain ⟨old, was, rfl⟩ := modify_get.mp found
    by_cases call : w.call = j
    · subst call
      cases was.symm.trans hears.there
      obtain ⟨unanswered, open_⟩ := inv.unanswered w.call mine hears.there hears.linked
      rw [if_pos rfl] at had ⊢
      rcases had with has | returned
      · simp only [Call.deliver] at has
        split at has
        · cases has
          exact complete
        · rw [unanswered] at has
          cases has
      · simp only [Call.deliver] at returned
        rw [returned] at open_
        cases open_
    · rw [if_neg call] at had ⊢
      exact complete_longer m inv was had

theorem feed_inv {m : M} {w : Waiter R} {mine : Call K R E} (inv : Inv p s)
    (named : p.key m = some mine.key) (there : s.waiters mine.key = some w)
    (hears : Hears p s m w mine) (more : ¬ p.final m = true) :
    Inv p { s with
      received := s.received ++ [m]
      waiters := Function.update s.waiters mine.key (some { w with acc := p.feed w.acc m }) } := by
  constructor
  · exact fun j c was => since_longer m inv was
  · intro j c was
    by_cases same : c.key = mine.key
    · rw [inv.linked j c was, same, there]
      simp
    · simp only [Function.update_of_ne same]
      exact inv.linked j c was
  · intro k' w' there'
    by_cases same : k' = mine.key
    · simp only [same, Function.update_self, Option.some.injEq] at there'
      subst there'
      exact ⟨mine, hears.there, same.symm⟩
    · simp only [Function.update_of_ne same] at there'
      exact inv.owned k' w' there'
  · intro j c w' was there' call
    by_cases same : c.key = mine.key
    · simp only [same, Function.update_self, Option.some.injEq] at there'
      subst there'
      dsimp only at call
      subst call
      cases was.symm.trans hears.there
      refine ⟨by rw [hears.owns, hears.fed], ?_⟩
      dsimp only
      rw [hears.owns]
      intro m' member
      rcases List.mem_append.mp member with old | new
      · exact hears.quiet m' old
      · rw [List.mem_singleton.mp new]
        simpa using more
    · simp only [Function.update_of_ne same] at there'
      dsimp only
      rw [own_elsewhere inv was (by rw [named]; simpa using Ne.symm same)]
      exact inv.gathered j c w' was there' call
  · exact inv.unanswered
  · exact fun j c was v had => complete_longer m inv was had

theorem receive_inv (m : M) (inv : Inv p s) : Inv p (receive p s m) := by
  unfold receive
  split
  · rename_i unnamed
    refine unheard_inv inv fun k named => ?_
    rw [unnamed] at named
    cases named
  · rename_i k named
    split
    · rename_i none_
      refine unheard_inv inv fun k' named' => ?_
      rw [named] at named'
      cases named'
      exact none_
    · rename_i w there
      obtain ⟨mine, rfl, hears⟩ := waiter_hears inv named there
      dsimp only
      split
      · rename_i ends
        exact deliver_inv inv named hears ends
      · rename_i more
        exact feed_inv inv named there hears more

theorem step_inv {t : Desk K M R E} {a : Action K M E} (inv : Inv p s)
    (taken : step p s a = some t) : Inv p t := by
  have fails : ∀ {i : Nat} {stage : Stage R E}, stage.isReturned = false →
      Inv p (move s i (·.at stage)) := by
    intro i stage open_
    refine move_inv inv (fun _ _ _ => open_) ?_
    rintro c _ v rfl
    cases open_
  cases a with
  | register k =>
    cases taken
    exact register_inv k inv
  | receive m =>
    cases taken
    exact receive_inv m inv
  | sent i result =>
    simp only [step] at taken
    split at taken
    · split at taken <;> cases taken <;> exact fails rfl
    · cases taken
  | take i =>
    simp only [step] at taken
    split at taken
    · rename_i k since linked v there
      cases taken
      refine move_inv inv ?_ ?_
      · intro c there' linked'
        have unanswered := (inv.unanswered i c there' linked').1
        rw [there] at there'
        cases there'
        cases unanswered
      · intro c there' v' same
        rw [there] at there'
        cases there'
        cases same
        exact inv.complete i _ there v (Or.inl rfl)
    · cases taken
  | cut i why =>
    simp only [step] at taken
    split at taken
    · cases taken
      exact fails rfl
    · cases taken
  | poll i =>
    simp only [step] at taken
    split at taken
    · cases taken
      exact fails rfl
    · cases taken
  | timeOut i why =>
    simp only [step] at taken
    split at taken
    · cases taken
      exact fails rfl
    · cases taken
  | cleanUp i =>
    simp only [step] at taken
    split at taken
    · rename_i k since linked answer why there
      cases taken
      refine move_inv (forget_inv k inv) ?_ ?_
      · intro c there' linked'
        obtain ⟨w, waits, _⟩ := ((forget_inv k inv).linked i c there').mp linked'
        have key : c.key = k := by
          unfold forget at there'
          split at there'
          · obtain ⟨old, was, rfl⟩ := modify_get.mp there'
            rw [there] at was
            cases was
            split <;> rfl
          · rw [there] at there'
            cases there'
            rfl
        rw [key, forget_free] at waits
        cases waits
      · intro c _ v same
        cases same
    · cases taken

theorem inv_answers (inv : Inv p s) : Answers p s where
  answer := by
    intro c member v returned
    obtain ⟨i, there⟩ := List.mem_iff_getElem?.mp member
    exact inv.complete i c there v (Or.inr returned)
  waiter := by
    intro k w there
    obtain ⟨c, was, rfl⟩ := inv.owned k w there
    have linked := (inv.linked w.call c was).mpr ⟨w, there, rfl⟩
    exact ⟨c, was, rfl, (inv.unanswered w.call c was linked).2⟩

def Apart (s : Desk K M R E) : Action K M E → Prop
  | .register k => ∀ c ∈ s.calls, c.key = k → c.stage.isReturned = true
  | _ => True

/-- A call still waiting has been sent its answer exactly when the reply is complete. -/
def Prompt (p : Protocol K M R) (s : Desk K M R E) : Prop :=
  ∀ c ∈ s.calls, c.stage.pending = true →
    ∀ v, c.answer = some v ↔ Complete p (own p s.received c) v

/-- The invariant of calls kept apart: a key has one call that has not returned, and
    one still waiting is linked until it is answered. -/
structure Served (p : Protocol K M R) (s : Desk K M R E) : Prop where
  inv : Inv p s
  one : ∀ (i j : Nat) (c d : Call K R E), s.calls[i]? = some c → s.calls[j]? = some d →
    c.stage.isReturned = false → d.stage.isReturned = false → c.key = d.key → i = j
  waits : ∀ (i : Nat) (c : Call K R E), s.calls[i]? = some c → c.stage.pending = true →
    c.linked = true ∨ c.answer.isSome = true

omit [DecidableEq K] in
theorem complete_unique {messages : List M} {v v' : R} (complete : Complete p messages v)
    (complete' : Complete p messages v') : v = v' := by
  obtain ⟨before, last, rest, rfl, quiet, ends, rfl⟩ := complete
  obtain ⟨before', last', rest', split, quiet', ends', rfl⟩ := complete'
  have same : before = before' ∧ last :: rest = last' :: rest' := by
    rcases List.append_eq_append_iff.mp split with ⟨more, rfl, tail⟩ | ⟨more, rfl, tail⟩
    · cases more with
      | nil => exact ⟨by simp, by simpa using tail⟩
      | cons m more =>
        obtain ⟨rfl, _⟩ := List.cons.inj tail
        rw [quiet' last (by simp)] at ends
        cases ends
    · cases more with
      | nil => exact ⟨by simp, by simpa using tail.symm⟩
      | cons m more =>
        obtain ⟨rfl, _⟩ := List.cons.inj tail
        rw [quiet last' (by simp)] at ends'
        cases ends'
  obtain ⟨rfl, tails⟩ := same
  rw [(List.cons.inj tails).1]

theorem served_prompt (served : Served p s) : Prompt p s := by
  intro c member pending v
  obtain ⟨i, there⟩ := List.mem_iff_getElem?.mp member
  constructor
  · exact fun has => served.inv.complete i c there v (Or.inl has)
  · intro complete
    rcases served.waits i c there pending with linked | has
    · obtain ⟨w, waits, call⟩ := (served.inv.linked i c there).mp linked
      obtain ⟨before, last, rest, split, _, ends, _⟩ := complete
      have quiet := (served.inv.gathered i c w there waits call).2 last (by rw [split]; simp)
      rw [quiet] at ends
      cases ends
    · obtain ⟨v', has⟩ := Option.isSome_iff_exists.mp has
      rw [has, complete_unique complete (served.inv.complete i c there v' (Or.inl has))]

/-- What a step may do to a call that has not returned after it: it had not before,
    under the same key, and if it still waits it waited and was served. -/
theorem served_of_calls {t : Desk K M R E} (served : Served p s) (inv : Inv p t)
    (from_ : ∀ (i : Nat) (c : Call K R E), t.calls[i]? = some c → c.stage.isReturned = false →
      ∃ old, s.calls[i]? = some old ∧ c.key = old.key ∧ old.stage.isReturned = false ∧
        (c.stage.pending = true → old.stage.pending = true ∧
          (old.linked = true → c.linked = true ∨ c.answer.isSome = true) ∧
            (old.answer.isSome = true → c.answer.isSome = true))) : Served p t where
  inv := inv
  one := by
    intro i j c d here there open_ open' same
    obtain ⟨old, was, key, before, _⟩ := from_ i c here open_
    obtain ⟨old', was', key', before', _⟩ := from_ j d there open'
    exact served.one i j old old' was was' before before' (by rw [← key, ← key', same])
  waits := by
    intro i c here pending
    have open_ : c.stage.isReturned = false := by
      cases stage : c.stage with
      | returned result =>
        rw [stage] at pending
        cases pending
      | _ => rfl
    obtain ⟨old, was, _, _, rest⟩ := from_ i c here open_
    obtain ⟨before, linked, answered⟩ := rest pending
    rcases served.waits i old was before with link | has
    · exact linked link
    · exact Or.inr (answered has)

theorem move_served {i : Nat} {c : Call K R E} {stage : Stage R E} (served : Served p s)
    (inv : Inv p (move s i (·.at stage))) (here : s.calls[i]? = some c)
    (open_ : c.stage.isReturned = false)
    (pending : stage.pending = true → c.stage.pending = true) :
    Served p (move s i (·.at stage)) := by
  refine served_of_calls served inv ?_
  intro j d there open'
  obtain ⟨old, was, rfl⟩ := modify_get.mp there
  refine ⟨old, was, ?_⟩
  by_cases same : i = j
  · subst same
    rw [here] at was
    cases was
    rw [if_pos rfl]
    exact ⟨rfl, open_, fun still => ⟨pending still, Or.inl, id⟩⟩
  · rw [if_neg same] at open' ⊢
    exact ⟨rfl, open', fun still => ⟨still, Or.inl, id⟩⟩

theorem receive_served (m : M) (served : Served p s) : Served p (receive p s m) := by
  refine served_of_calls served (receive_inv m served.inv) ?_
  intro j c there open_
  have kept : s.calls[j]? = some c → ∃ old, s.calls[j]? = some old ∧ c.key = old.key ∧
      old.stage.isReturned = false ∧ (c.stage.pending = true → old.stage.pending = true ∧
        (old.linked = true → c.linked = true ∨ c.answer.isSome = true) ∧
          (old.answer.isSome = true → c.answer.isSome = true)) := by
    intro was
    exact ⟨c, was, rfl, open_, fun still => ⟨still, Or.inl, id⟩⟩
  unfold receive at there
  split at there
  · exact kept there
  · split at there
    · exact kept there
    · dsimp only at there
      split at there
      · obtain ⟨old, was, rfl⟩ := modify_get.mp there
        split at open_
        · rename_i same
          rw [if_pos same]
          refine ⟨old, was, rfl, open_, fun pending => ?_⟩
          have before : old.stage.pending = true := pending
          simp [Call.deliver, before]
        · rename_i other
          rw [if_neg other]
          exact ⟨old, was, rfl, open_, fun still => ⟨still, Or.inl, id⟩⟩
      · exact kept there

theorem register_served {k : K} (served : Served p s) (apart : Apart s (.register k : Action K M E)) :
    Served p (register p s k) := by
  have returned : ∀ {j : Nat} {c : Call K R E}, s.calls[j]? = some c → c.key = k →
      c.stage.isReturned = true := fun was key => apart _ (List.mem_of_getElem? was) key
  -- Nothing is there to be taken over.
  have free : forget s k = s := by
    unfold forget
    split
    · rename_i w there
      obtain ⟨c, was, key⟩ := served.inv.owned k w there
      have linked := (served.inv.linked w.call c was).mpr ⟨w, by rw [key, there], rfl⟩
      have open_ := (served.inv.unanswered w.call c was linked).2
      rw [returned was key] at open_
      cases open_
    · rfl
  have inv := register_inv k served.inv
  simp only [register, free] at inv ⊢
  have calls : ∀ {j c}, (s.calls ++ [⟨k, s.received.length, true, none, .sending⟩])[j]? = some c →
      s.calls[j]? = some c ∨
        (j = s.calls.length ∧ c = ⟨k, s.received.length, true, none, .sending⟩) :=
    fun found => append_get.mp found
  refine ⟨inv, ?_, ?_⟩
  · intro i j c d here there open_ open' same
    rcases calls here with was | ⟨rfl, rfl⟩
    · rcases calls there with was' | ⟨rfl, rfl⟩
      · exact served.one i j c d was was' open_ open' same
      · rw [returned was same] at open_
        cases open_
    · rcases calls there with was' | ⟨rfl, rfl⟩
      · rw [returned was' same.symm] at open'
        cases open'
      · rfl
  · intro i c here pending
    rcases calls here with was | ⟨rfl, rfl⟩
    · exact served.waits i c was pending
    · exact Or.inl rfl

theorem clean_served {i : Nat} {k : K} {since : Nat} {linked : Bool} {answer : Option R} {why : E}
    (served : Served p s) (there : s.calls[i]? = some ⟨k, since, linked, answer, .dropped why⟩)
    (inv : Inv p (move (forget s k) i (·.at (.returned (.error why))))) :
    Served p (move (forget s k) i (·.at (.returned (.error why)))) := by
  refine served_of_calls served inv ?_
  intro j c found open_
  obtain ⟨old, was, rfl⟩ := modify_get.mp found
  split at open_
  · cases open_
  · rename_i other
    rw [if_neg other]
    unfold forget at was
    split at was
    · rename_i w waits
      obtain ⟨before, earlier, rfl⟩ := modify_get.mp was
      by_cases call : w.call = j
      · -- The key's waiter is this call's own, for it is the one left under the key.
        subst call
        obtain ⟨mine, at_, key⟩ := served.inv.owned k w waits
        have link := (served.inv.linked w.call mine at_).mpr ⟨w, by rw [key, waits], rfl⟩
        have open' := (served.inv.unanswered w.call mine at_ link).2
        exact absurd (served.one i w.call _ mine there at_ rfl open' key.symm) other
      · rw [if_neg call] at open_ ⊢
        exact ⟨before, earlier, rfl, open_, fun still => ⟨still, Or.inl, id⟩⟩
    · exact ⟨old, was, rfl, open_, fun still => ⟨still, Or.inl, id⟩⟩

theorem step_served {t : Desk K M R E} {a : Action K M E} (served : Served p s) (apart : Apart s a)
    (taken : step p s a = some t) : Served p t := by
  have inv := step_inv served.inv taken
  cases a with
  | register k =>
    cases taken
    exact register_served served apart
  | receive m =>
    cases taken
    exact receive_served m served
  | cleanUp i =>
    simp only [step] at taken
    split at taken
    · rename_i there
      cases taken
      exact clean_served served there inv
    · cases taken
  | sent i result =>
    simp only [step] at taken
    split at taken
    · rename_i there
      split at taken <;> cases taken <;> exact move_served served inv there rfl fun _ => rfl
    · cases taken
  | take i =>
    simp only [step] at taken
    split at taken
    · rename_i there
      cases taken
      exact move_served served inv there rfl fun _ => rfl
    · cases taken
  | cut i why =>
    simp only [step] at taken
    split at taken
    · rename_i there
      cases taken
      exact move_served served inv there rfl fun _ => rfl
    · cases taken
  | poll i =>
    simp only [step] at taken
    split at taken
    · rename_i there
      cases taken
      exact move_served served inv there rfl fun _ => rfl
    · cases taken
  | timeOut i why =>
    simp only [step] at taken
    split at taken
    · rename_i there
      cases taken
      exact move_served served inv there rfl fun _ => rfl
    · cases taken

theorem start_served : Served p (.start : Desk K M R E) := by
  refine ⟨start_inv, ?_, ?_⟩ <;> simp [Desk.start]

end Correlated
