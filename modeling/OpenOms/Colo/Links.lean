import OpenOms.Colo.RiskBook
import OpenOms.Library.Histories
import Mathlib.Data.List.Induction
import Std.Data.ExtTreeMap

/-!
The hub's side of the control links: one slot for each strategy, taken over by its
newest connection, the last kill sent to it and when its link went down. Each
operation here is one critical section of the hub; the handlers of old and new
connections and the pushes come in any order. Times are in nanoseconds.
-/
namespace OmsLinks
open OmsColo Histories

/-- One strategy's control link: what was sent into its channel, the connection it
    belongs to and what that has said. -/
structure LinkSlot where
  pushed : List ToStrategy
  conn : Nat
  lastHeard : Nat
  ackedVersion : Int
  deriving DecidableEq, Repr

structure KillSent where
  sent : Nat
  acked : Bool
  deriving DecidableEq, Repr

structure Hub where
  links : Std.ExtTreeMap String LinkSlot
  limitsChanged : Std.ExtTreeMap String Nat
  kills : Std.ExtTreeMap String KillSent
  downSince : Std.ExtTreeMap String Nat
  started : Nat

def Hub.new (started : Nat) : Hub := ⟨∅, ∅, ∅, ∅, started⟩

/-- The critical sections of the hub. `connect` is `insert`, `clearDown` and
    `stampLimits`; `push` is `noteKill`, for limits `stampLimits`, and `send`. -/
inductive Section where
  | insert (code : String) (conn : Nat)
  | clearDown (code : String)
  | stampLimits (code : String)
  | disconnect (code : String) (conn : Nat)
  | heard (code : String) (conn : Nat) (msg : FromStrategy)
  | noteKill (code : String) (msg : ToStrategy)
  | send (code : String) (msg : ToStrategy)
  deriving DecidableEq, Repr

def asI64 (version : Nat) : Int :=
  if version < 2 ^ 63 then version else version - 2 ^ 64

def LinkSlot.hears (slot : LinkSlot) (msg : FromStrategy) (now : Nat) : LinkSlot :=
  { slot with
    lastHeard := now
    ackedVersion :=
      match msg with
      | .ackLimits version => asI64 version
      | _ => slot.ackedVersion }

def enter (hub : Hub) (now : Nat) : Section → Hub
  | .insert code conn => { hub with links := hub.links.insert code ⟨[], conn, now, 0⟩ }
  | .clearDown code => { hub with downSince := hub.downSince.erase code }
  | .stampLimits code => { hub with limitsChanged := hub.limitsChanged.insert code now }
  | .disconnect code conn =>
    match hub.links[code]? with
    | some slot =>
      if slot.conn = conn then
        { hub with links := hub.links.erase code, downSince := hub.downSince.insert code now }
      else hub
    | none => hub
  | .heard code conn msg =>
    match hub.links[code]? with
    | some slot =>
      if slot.conn = conn then
        { hub with
          links := hub.links.insert code (slot.hears msg now)
          kills :=
            match msg with
            | .ackKill => hub.kills.modify code fun kill => { kill with acked := true }
            | _ => hub.kills }
      else hub
    | none => hub
  | .noteKill code msg =>
    match msg with
    | .kill => { hub with kills := hub.kills.insert code ⟨now, false⟩ }
    | .resume => { hub with kills := hub.kills.erase code }
    | _ => hub
  | .send code msg =>
    { hub with links := hub.links.modify code fun slot => { slot with pushed := slot.pushed ++ [msg] } }

abbrev Timed := Nat × Section

def after (started : Nat) (history : List Timed) : Hub :=
  history.foldl (fun hub (now, s) => enter hub now s) (.new started)

def Hub.lastHeard (hub : Hub) (code : String) (conn : Nat) : Option Nat :=
  (hub.links[code]?.filter fun slot => slot.conn = conn).map LinkSlot.lastHeard

def SECOND : Nat := 1000000000

def ACK_KILL_WITHIN : Nat := 5 * SECOND

def killAckLate (kill : Option KillSent) (now : Nat) : Bool :=
  match kill with
  | some kill => !kill.acked && decide (now - kill.sent > ACK_KILL_WITHIN)
  | none => false

structure LinkStatus where
  connected : Bool
  lastHeardSecs : Option Nat
  ackedVersion : Int
  killAcked : Bool
  deriving DecidableEq, Repr

def Hub.linkStatus (hub : Hub) (code : String) (now : Nat) : LinkStatus :=
  match hub.links[code]? with
  | some slot =>
    ⟨true, some ((now - slot.lastHeard) / SECOND), slot.ackedVersion,
      (hub.kills[code]?.map KillSent.acked).getD false⟩
  | none => ⟨false, none, 0, false⟩

/-! The same read off the history. -/

def Inserts (code : String) (conn : Nat) (s : Timed) : Prop := s.2 = .insert code conn

/-- The slot is taken over by another connection, or its own has ended. -/
def Frees (code : String) (conn : Nat) (s : Timed) : Prop :=
  (∃ other, s.2 = .insert code other) ∨ s.2 = .disconnect code conn

def Linked (history : List Timed) (code : String) (conn : Nat) (before : List Timed)
    (opening : Timed) (behind : List Timed) : Prop :=
  Stands (Inserts code conn) (Frees code conn) history before opening behind

def Current (history : List Timed) (code : String) (conn : Nat) : Prop :=
  ∃ before opening behind, Linked history code conn before opening behind

def heardOn (code : String) (conn : Nat) (history : List Timed) : List (Nat × FromStrategy) :=
  history.filterMap fun (now, s) =>
    match s with
    | .heard code' conn' msg => if code' = code ∧ conn' = conn then some (now, msg) else none
    | _ => none

def FromStrategy.version : FromStrategy → Option Int
  | .ackLimits version => some (asI64 version)
  | _ => none

def sentTo (code : String) (history : List Timed) : List ToStrategy :=
  history.filterMap fun (_, s) =>
    match s with
    | .send code' msg => if code' = code then some msg else none
    | _ => none

def slotSince (code : String) (conn opened : Nat) (behind : List Timed) : LinkSlot where
  pushed := sentTo code behind
  conn := conn
  lastHeard := ((heardOn code conn behind).map Prod.fst).getLastD opened
  ackedVersion := ((heardOn code conn behind).filterMap fun h => FromStrategy.version h.2).getLastD 0

def NotesKill (code : String) (s : Timed) : Prop := s.2 = .noteKill code .kill

def Overrides (code : String) (s : Timed) : Prop :=
  s.2 = .noteKill code .kill ∨ s.2 = .noteKill code .resume

def AcksKill (code : String) (ahead : List Timed) (s : Timed) : Prop :=
  ∃ conn, s.2 = .heard code conn .ackKill ∧ Current ahead code conn

def Acked (code : String) (before : List Timed) (noted : Timed) (behind : List Timed) : Prop :=
  ∃ ahead s rest, behind = ahead ++ s :: rest ∧ AcksKill code (before ++ noted :: ahead) s

def KillAcked (history : List Timed) (code : String) : Prop :=
  ∃ before noted behind, Stands (NotesKill code) (Overrides code) history before noted behind ∧
    Acked code before noted behind

def SlotExact (history : List Timed) (hub : Hub) : Prop :=
  ∀ code slot, hub.links[code]? = some slot ↔ ∃ conn before opening behind,
    Linked history code conn before opening behind ∧ slot = slotSince code conn opening.1 behind

def KillExact (history : List Timed) (hub : Hub) : Prop :=
  ∀ code kill, hub.kills[code]? = some kill ↔ ∃ before noted behind,
    Stands (NotesKill code) (Overrides code) history before noted behind ∧ kill.sent = noted.1 ∧
      (kill.acked = true ↔ Acked code before noted behind)

def StatusExact (history : List Timed) (hub : Hub) (code : String) (now : Nat) : Prop :=
  (∃ conn before opening behind acked, Linked history code conn before opening behind ∧
    (acked = true ↔ KillAcked history code) ∧
    let slot := slotSince code conn opening.1 behind
    hub.linkStatus code now =
      ⟨true, some ((now - slot.lastHeard) / SECOND), slot.ackedVersion, acked⟩) ∨
  (∀ conn, ¬ Current history code conn) ∧ hub.linkStatus code now = ⟨false, none, 0, false⟩

/-- The hub holds and says of every strategy's link what the history does. -/
structure Exact (history : List Timed) (hub : Hub) : Prop where
  slot : SlotExact history hub
  kill : KillExact history hub
  heard : ∀ code conn time, hub.lastHeard code conn = some time ↔ ∃ before opening behind,
    Linked history code conn before opening behind ∧
      time = (slotSince code conn opening.1 behind).lastHeard
  late : ∀ code now, killAckLate hub.kills[code]? now = true ↔ ∃ before noted behind,
    Stands (NotesKill code) (Overrides code) history before noted behind ∧
      now - noted.1 > ACK_KILL_WITHIN ∧ ¬ Acked code before noted behind
  status : ∀ code now, StatusExact history hub code now

@[simp] theorem after_snoc (started : Nat) (history : List Timed) (s : Timed) :
    after started (history ++ [s]) = enter (after started history) s.1 s.2 := by
  simp [after]

def slotAfter (code : String) (now : Nat) (s : Section) (slot : Option LinkSlot) :
    Option LinkSlot :=
  match s with
  | .insert code' conn => if code' = code then some ⟨[], conn, now, 0⟩ else slot
  | .disconnect code' conn => if code' = code then slot.filter (·.conn ≠ conn) else slot
  | .heard code' conn msg =>
    if code' = code then slot.map fun own => if own.conn = conn then own.hears msg now else own
    else slot
  | .send code' msg =>
    if code' = code then slot.map fun own => { own with pushed := own.pushed ++ [msg] } else slot
  | _ => slot

theorem enter_slot (hub : Hub) (now : Nat) (s : Section) (code : String) :
    (enter hub now s).links[code]? = slotAfter code now s hub.links[code]? := by
  cases s with
  | insert code' conn =>
    by_cases own : code' = code <;>
      simp [enter, slotAfter, own, Std.ExtTreeMap.getElem?_insert]
  | clearDown => rfl
  | stampLimits => rfl
  | disconnect code' conn =>
    by_cases own : code' = code
    · subst own
      cases there : hub.links[code']? with
      | none => simp [enter, slotAfter, there]
      | some slot =>
        by_cases same : slot.conn = conn <;>
          simp [enter, slotAfter, there, same, Option.filter_some]
    · simp only [enter, slotAfter, own, if_false]
      split
      · split <;> simp [own, Std.ExtTreeMap.getElem?_erase]
      · rfl
  | heard code' conn msg =>
    by_cases own : code' = code
    · subst own
      cases there : hub.links[code']? with
      | none => simp [enter, slotAfter, there]
      | some slot =>
        by_cases same : slot.conn = conn <;> simp [enter, slotAfter, there, same]
    · simp only [enter, slotAfter, own, if_false]
      split
      · split <;> simp [own, Std.ExtTreeMap.getElem?_insert]
      · rfl
  | noteKill code' msg => cases msg <;> rfl
  | send code' msg =>
    by_cases own : code' = code <;>
      simp [enter, slotAfter, own, Std.ExtTreeMap.getElem?_modify]

def Reads (history : List Timed) (code : String) (slot : LinkSlot) : Prop :=
  ∃ conn before opening behind, Linked history code conn before opening behind ∧
    slot = slotSince code conn opening.1 behind

theorem heard_on_snoc (code : String) (conn : Nat) (history : List Timed) (now : Nat)
    (s : Section) : heardOn code conn (history ++ [(now, s)]) =
      heardOn code conn history ++
        (match s with
        | .heard code' conn' msg => if code' = code ∧ conn' = conn then [(now, msg)] else []
        | _ => []) := by
  simp only [heardOn, List.filterMap_append, List.filterMap_cons, List.filterMap_nil]
  cases s with
  | heard code' conn' msg =>
    by_cases own : code' = code ∧ conn' = conn <;> simp [own]
  | _ => rfl

theorem sent_to_snoc (code : String) (history : List Timed) (now : Nat) (s : Section) :
    sentTo code (history ++ [(now, s)]) =
      sentTo code history ++
        (match s with
        | .send code' msg => if code' = code then [msg] else []
        | _ => []) := by
  simp only [sentTo, List.filterMap_append, List.filterMap_cons, List.filterMap_nil]
  cases s with
  | send code' msg => by_cases own : code' = code <;> simp [own]
  | _ => rfl

theorem slot_since_snoc (code : String) (conn opened : Nat) (behind : List Timed) (now : Nat)
    (s : Section) (stays : ¬ Frees code conn (now, s)) :
    some (slotSince code conn opened (behind ++ [(now, s)])) =
      slotAfter code now s (some (slotSince code conn opened behind)) := by
  unfold slotSince
  rw [heard_on_snoc, sent_to_snoc]
  cases s with
  | insert code' conn' =>
    have other : code' ≠ code := fun own => stays (Or.inl ⟨conn', by rw [own]⟩)
    simp [slotAfter, other]
  | disconnect code' conn' =>
    by_cases own : code' = code
    · have other : conn ≠ conn' := fun same => stays (Or.inr (by rw [own, same]))
      simp [slotAfter, own, other, Option.filter_some]
    · simp [slotAfter, own]
  | heard code' conn' msg =>
    by_cases own : code' = code
    · by_cases same : conn' = conn
      · cases msg <;> simp [slotAfter, own, same, LinkSlot.hears, FromStrategy.version]
      · simp [slotAfter, own, same, Ne.symm same]
    · simp [slotAfter, own]
  | send code' msg => by_cases own : code' = code <;> simp [slotAfter, own]
  | _ => simp [slotAfter]

theorem linked_snoc {history before behind : List Timed} {opening s : Timed} {code : String}
    {conn : Nat} : Linked (history ++ [s]) code conn before opening behind ↔
      (before = history ∧ opening = s ∧ behind = [] ∧ Inserts code conn s) ∨
        ∃ rest, behind = rest ++ [s] ∧ ¬ Frees code conn s ∧
          Linked history code conn before opening rest := stands_snoc

theorem slot_after_some {code : String} {now : Nat} {s : Section} {slot : Option LinkSlot}
    {t : LinkSlot} : slotAfter code now s slot = some t ↔
      (∃ conn, s = .insert code conn ∧ t = slotSince code conn now []) ∨
        ∃ own, slot = some own ∧ ¬ Frees code own.conn (now, s) ∧
          slotAfter code now s (some own) = some t := by
  by_cases inserts : ∃ conn, s = .insert code conn
  · obtain ⟨conn, rfl⟩ := inserts
    have frees : ∀ own, Frees code own (now, .insert code conn) := fun own => Or.inl ⟨conn, rfl⟩
    simp [slotAfter, frees, slotSince, sentTo, heardOn, eq_comm]
  · have other : ¬ ∃ conn, s = .insert code conn ∧ t = slotSince code conn now [] :=
      fun ⟨conn, same, _⟩ => inserts ⟨conn, same⟩
    rw [or_iff_right other]
    constructor
    · intro after_
      cases there : slot with
      | none =>
        rw [there] at after_
        cases s with
        | insert code' conn =>
          have away : code' ≠ code := fun own => inserts ⟨conn, by rw [own]⟩
          simp [slotAfter, away] at after_
        | _ => simp [slotAfter] at after_
      | some own =>
        rw [there] at after_
        refine ⟨own, rfl, ?_, after_⟩
        rintro (⟨conn, new⟩ | ended)
        · exact inserts ⟨conn, new⟩
        · simp only at ended
          rw [ended] at after_
          simp [slotAfter, Option.filter_some] at after_
    · rintro ⟨own, rfl, _, after_⟩
      exact after_

theorem reads_snoc {history : List Timed} {now : Nat} {s : Section} {code : String}
    {slot : Option LinkSlot} (said : ∀ own, slot = some own ↔ Reads history code own)
    (t : LinkSlot) : slotAfter code now s slot = some t ↔ Reads (history ++ [(now, s)]) code t := by
  simp only [Reads, linked_snoc]
  rw [slot_after_some]
  constructor
  · rintro (⟨conn, rfl, same⟩ | ⟨own, there, stays, after_⟩)
    · exact ⟨conn, history, _, [], Or.inl ⟨rfl, rfl, rfl, rfl⟩, same⟩
    · obtain ⟨conn, before, opening, rest, linked, rfl⟩ := (said own).mp there
      refine ⟨conn, before, opening, _, Or.inr ⟨rest, rfl, stays, linked⟩, ?_⟩
      have next := slot_since_snoc code conn opening.1 rest now s stays
      rw [after_] at next
      exact (Option.some.inj next).symm
  · rintro ⟨conn, before, opening, behind, ⟨_, rfl, rfl, inserts⟩ | ⟨rest, rfl, stays, linked⟩, same⟩
    · exact Or.inl ⟨conn, inserts, same⟩
    · refine Or.inr ⟨_, (said _).mpr ⟨conn, before, opening, rest, linked, rfl⟩, stays, ?_⟩
      rw [same]
      exact (slot_since_snoc code conn opening.1 rest now s stays).symm

theorem acked_snoc {code : String} {before behind : List Timed} {noted s : Timed} :
    Acked code before noted (behind ++ [s]) ↔
      Acked code before noted behind ∨ AcksKill code (before ++ noted :: behind) s := by
  constructor
  · rintro ⟨ahead, ack, rest, split, acks⟩
    rcases List.eq_nil_or_concat rest with rfl | ⟨rest, last, rfl⟩
    · obtain ⟨rfl, same⟩ := List.append_inj' split rfl
      obtain ⟨rfl, _⟩ := List.cons.inj same
      exact Or.inr acks
    · rw [List.concat_eq_append, ← List.cons_append, ← List.append_assoc] at split
      obtain ⟨rfl, _⟩ := List.append_inj' split rfl
      exact Or.inl ⟨ahead, ack, rest, rfl, acks⟩
  · rintro (⟨ahead, ack, rest, rfl, acks⟩ | acks)
    · exact ⟨ahead, ack, rest ++ [s], by simp, acks⟩
    · exact ⟨behind, s, [], rfl, acks⟩

theorem current_iff {history : List Timed} {hub : Hub} {code : String}
    (said : ∀ slot, hub.links[code]? = some slot ↔ Reads history code slot) (conn : Nat) :
    Current history code conn ↔ ∃ slot, hub.links[code]? = some slot ∧ slot.conn = conn := by
  constructor
  · rintro ⟨before, opening, behind, linked⟩
    exact ⟨_, (said _).mpr ⟨conn, before, opening, behind, linked, rfl⟩, rfl⟩
  · rintro ⟨slot, there, rfl⟩
    obtain ⟨conn, before, opening, behind, linked, rfl⟩ := (said slot).mp there
    exact ⟨before, opening, behind, linked⟩

theorem enter_acks {history : List Timed} {hub : Hub} {now : Nat} {s : Section} {code : String}
    (said : ∀ slot, hub.links[code]? = some slot ↔ Reads history code slot)
    (acks : AcksKill code history (now, s)) :
    (enter hub now s).kills[code]? =
      hub.kills[code]?.map fun kill => { kill with acked := true } := by
  obtain ⟨conn, heard, current⟩ := acks
  obtain ⟨slot, there, own⟩ := (current_iff said conn).mp current
  simp only at heard
  subst heard
  simp [enter, there, own]

theorem enter_kill_same {history : List Timed} {hub : Hub} {now : Nat} {s : Section}
    {code : String} (said : ∀ slot, hub.links[code]? = some slot ↔ Reads history code slot)
    (quiet : ¬ Overrides code (now, s)) (acks : ¬ AcksKill code history (now, s)) :
    (enter hub now s).kills[code]? = hub.kills[code]? := by
  cases s with
  | disconnect code' conn =>
    simp only [enter]
    split
    · split <;> rfl
    · rfl
  | heard code' conn msg =>
    simp only [enter]
    split
    · rename_i slot there
      split
      · rename_i own
        cases msg with
        | ackKill =>
          have other : code' ≠ code := by
            rintro rfl
            exact acks ⟨conn, rfl, (current_iff said conn).mpr ⟨slot, there, own⟩⟩
          simp [Std.ExtTreeMap.getElem?_modify, other]
        | _ => rfl
      · rfl
    · rfl
  | noteKill code' msg =>
    cases msg with
    | kill =>
      have other : code' ≠ code := fun own => quiet (Or.inl (by rw [own]))
      simp [enter, Std.ExtTreeMap.getElem?_insert, other]
    | resume =>
      have other : code' ≠ code := fun own => quiet (Or.inr (by rw [own]))
      simp [enter, Std.ExtTreeMap.getElem?_erase, other]
    | _ => rfl
  | _ => rfl

def ReadsKill (history : List Timed) (code : String) (kill : KillSent) : Prop :=
  ∃ before noted behind, Stands (NotesKill code) (Overrides code) history before noted behind ∧
    kill.sent = noted.1 ∧ (kill.acked = true ↔ Acked code before noted behind)

theorem enter_quiet {history : List Timed} {hub : Hub} {now : Nat} {s : Section} {code : String}
    (said : ∀ slot, hub.links[code]? = some slot ↔ Reads history code slot)
    (quiet : ¬ Overrides code (now, s)) (kill : KillSent) :
    (enter hub now s).kills[code]? = some kill ↔ ∃ old, hub.kills[code]? = some old ∧
      kill.sent = old.sent ∧
        (kill.acked = true ↔ old.acked = true ∨ AcksKill code history (now, s)) := by
  obtain ⟨sent, acked⟩ := kill
  by_cases acks : AcksKill code history (now, s)
  · rw [enter_acks said acks, Option.map_eq_some_iff]
    refine exists_congr fun old => and_congr_right fun _ => ?_
    simp only [KillSent.mk.injEq, acks, or_true, iff_true]
    rw [eq_comm, eq_comm (b := acked)]
  · rw [enter_kill_same said quiet acks]
    constructor
    · intro there
      exact ⟨_, there, rfl, by simp [acks]⟩
    · rintro ⟨⟨sent', acked'⟩, there, rfl, same⟩
      rw [there]
      simp only [acks, or_false] at same
      rw [Bool.eq_iff_iff.mpr same]

theorem reads_kill_snoc {history : List Timed} {hub : Hub} {now : Nat} {s : Section}
    {code : String} (said : ∀ slot, hub.links[code]? = some slot ↔ Reads history code slot)
    (kills : ∀ kill, hub.kills[code]? = some kill ↔ ReadsKill history code kill)
    (kill : KillSent) :
    (enter hub now s).kills[code]? = some kill ↔ ReadsKill (history ++ [(now, s)]) code kill := by
  obtain ⟨sent, acked⟩ := kill
  by_cases over_ : Overrides code (now, s)
  · have fresh : ReadsKill (history ++ [(now, s)]) code ⟨sent, acked⟩ ↔
        NotesKill code (now, s) ∧ sent = now ∧ acked = false := by
      simp only [ReadsKill, stands_snoc, over_, not_true_eq_false, false_and, and_false,
        exists_false, or_false]
      constructor
      · rintro ⟨_, _, _, ⟨rfl, rfl, rfl, notes⟩, same, acked_⟩
        refine ⟨notes, same, ?_⟩
        simpa [Acked] using acked_
      · rintro ⟨notes, rfl, rfl⟩
        exact ⟨history, _, [], ⟨rfl, rfl, rfl, notes⟩, rfl, by simp [Acked]⟩
    rw [fresh]
    rcases over_ with notes | resumes
    · simp only at notes
      subst notes
      simp [enter, NotesKill, eq_comm]
    · simp only at resumes
      subst resumes
      simp [enter, NotesKill]
  · rw [enter_quiet said over_]
    simp only [ReadsKill, stands_snoc]
    constructor
    · rintro ⟨old, there, same, acked_⟩
      obtain ⟨before, noted, rest, stands, sent_, old_⟩ := (kills old).mp there
      refine ⟨before, noted, _, Or.inr ⟨rest, rfl, over_, stands⟩, same.trans sent_, ?_⟩
      rw [acked_, acked_snoc, old_, ← stands.1]
    · rintro ⟨before, noted, behind, ⟨_, rfl, _, notes⟩ | ⟨rest, rfl, _, stands⟩, same, acked_⟩
      · exact absurd (Or.inl notes) over_
      · classical
        refine ⟨⟨noted.1, decide (Acked code before noted rest)⟩, ?_, same, ?_⟩
        · exact (kills _).mpr ⟨before, noted, rest, stands, rfl, by simp⟩
        · rw [acked_, acked_snoc, ← stands.1]
          simp

theorem heard_exact {history : List Timed} {hub : Hub} (slots : SlotExact history hub)
    (code : String) (conn time : Nat) :
    hub.lastHeard code conn = some time ↔ ∃ before opening behind,
      Linked history code conn before opening behind ∧
        time = (slotSince code conn opening.1 behind).lastHeard := by
  simp only [Hub.lastHeard, Option.map_eq_some_iff, Option.filter_eq_some_iff, decide_eq_true_eq]
  constructor
  · rintro ⟨slot, ⟨there, own⟩, rfl⟩
    obtain ⟨_, before, opening, behind, linked, rfl⟩ := (slots code slot).mp there
    cases own
    exact ⟨before, opening, behind, linked, rfl⟩
  · rintro ⟨before, opening, behind, linked, rfl⟩
    exact ⟨_, ⟨(slots code _).mpr ⟨conn, before, opening, behind, linked, rfl⟩, rfl⟩, rfl⟩

theorem late_exact {history : List Timed} {hub : Hub} (kills : KillExact history hub)
    (code : String) (now : Nat) :
    killAckLate hub.kills[code]? now = true ↔ ∃ before noted behind,
      Stands (NotesKill code) (Overrides code) history before noted behind ∧
        now - noted.1 > ACK_KILL_WITHIN ∧ ¬ Acked code before noted behind := by
  constructor
  · intro late
    cases there : hub.kills[code]? with
    | none =>
      rw [there] at late
      cases late
    | some kill =>
      obtain ⟨before, noted, behind, stands, sent, acked⟩ := (kills code kill).mp there
      rw [there] at late
      simp only [killAckLate, Bool.and_eq_true, Bool.not_eq_true', decide_eq_true_eq] at late
      refine ⟨before, noted, behind, stands, sent ▸ late.2, fun done => ?_⟩
      rw [acked.mpr done] at late
      cases late.1
  · rintro ⟨before, noted, behind, stands, late, pending⟩
    have there : hub.kills[code]? = some ⟨noted.1, false⟩ :=
      (kills code _).mpr ⟨before, noted, behind, stands, rfl, by simp [pending]⟩
    simpa [there, killAckLate] using late

theorem kill_acked_exact {history : List Timed} {hub : Hub} (kills : KillExact history hub)
    (code : String) :
    (hub.kills[code]?.map KillSent.acked).getD false = true ↔ KillAcked history code := by
  constructor
  · intro acked
    cases there : hub.kills[code]? with
    | none => simp [there] at acked
    | some kill =>
      obtain ⟨before, noted, behind, stands, _, same⟩ := (kills code kill).mp there
      exact ⟨before, noted, behind, stands, same.mp (by simpa [there] using acked)⟩
  · rintro ⟨before, noted, behind, stands, done⟩
    have there : hub.kills[code]? = some ⟨noted.1, true⟩ :=
      (kills code _).mpr ⟨before, noted, behind, stands, rfl, by simp [done]⟩
    simp [there]

theorem status_exact {history : List Timed} {hub : Hub} (slots : SlotExact history hub)
    (kills : KillExact history hub) (code : String) (now : Nat) :
    StatusExact history hub code now := by
  cases there : hub.links[code]? with
  | none =>
    refine .inr ⟨?_, by simp [Hub.linkStatus, there]⟩
    rintro conn ⟨before, opening, behind, linked⟩
    have held := (slots code _).mpr ⟨conn, before, opening, behind, linked, rfl⟩
    rw [there] at held
    cases held
  | some slot =>
    obtain ⟨conn, before, opening, behind, linked, rfl⟩ := (slots code slot).mp there
    refine .inl ⟨conn, before, opening, behind, _, linked, kill_acked_exact kills code, ?_⟩
    simp [Hub.linkStatus, there]

/-- Whatever connections come and go and in whatever order their handlers and the
    pushes enter, each strategy's slot is that of the connection last inserted, with
    what was heard on it and sent down it alone, until that connection ends; and the
    kill it last was sent is acknowledged only on the connection that has the slot.
    What the hub answers about a link says the same. -/
theorem links_exact (started : Nat) (history : List Timed) :
    Exact history (after started history) := by
  have said : ∀ code, (∀ slot, (after started history).links[code]? = some slot ↔
      Reads history code slot) ∧
      ∀ kill, (after started history).kills[code]? = some kill ↔ ReadsKill history code kill := by
    intro code
    induction history using List.reverseRecOn with
    | nil => simp [after, Hub.new, Reads, ReadsKill, Linked, Stands]
    | append_singleton history s ih =>
      obtain ⟨now, s⟩ := s
      rw [after_snoc]
      refine ⟨fun slot => ?_, reads_kill_snoc ih.1 ih.2⟩
      rw [enter_slot]
      exact reads_snoc ih.1 slot
  have slots : SlotExact history (after started history) := fun code => (said code).1
  have kills : KillExact history (after started history) := fun code => (said code).2
  exact ⟨slots, kills, heard_exact slots, late_exact kills, status_exact slots kills⟩

end OmsLinks
