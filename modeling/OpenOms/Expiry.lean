import OpenOms.Library.Lists
import Mathlib.Data.List.Basic
import Mathlib.Data.List.Induction
import Mathlib.Data.List.Flatten

/-!
The expiry of dated contracts: the instant a contract's date stands for on its
venue's calendar, and the sweep that retires what has passed. `instant` is the
database's reading of a local date and time in a zone, which fails for a zone it
does not know.
-/
namespace OmsExpiry

inductive Status where
  | active
  | inactive
  | halted
  | expired
  deriving DecidableEq, Repr

structure Instrument where
  id : Nat
  venue : String
  status : Status
  deriving DecidableEq, Repr

structure Derivative (Date : Type) where
  instrumentId : Nat
  expiryDate : Option Date
  expiresAt : Option Int
  deriving DecidableEq, Repr

structure Venue where
  id : Nat
  code : String
  deriving DecidableEq, Repr

structure Calendar (Time Zone : Type) where
  code : String
  venueId : Option Nat
  timezone : Zone
  closeTime : Option Time
  deriving DecidableEq, Repr

structure Db (Date Time Zone : Type) where
  instrument : List Instrument
  derivative : List (Derivative Date)
  venue : List Venue
  calendar : List (Calendar Time Zone)
  deriving DecidableEq, Repr

variable {Date Time Zone : Type} (instant : Date → Time → Zone → Option Int)

/-- What the UPDATE's join reads for a contract, one instant for each calendar. -/
def readings (db : Db Date Time Zone) (d : Derivative Date) : List (Option Int) :=
  (db.instrument.filter (·.id = d.instrumentId)).flatMap fun i =>
    (db.venue.filter (·.code = i.venue)).flatMap fun v =>
      (db.calendar.filter (·.venueId = some v.id)).filterMap fun c =>
        match d.expiryDate, c.closeTime with
        | some date, some close => some (instant date close c.timezone)
        | _, _ => none

def candidates (db : Db Date Time Zone) (d : Derivative Date) : List Int :=
  (readings instant db d).filterMap id

def corrections (db : Db Date Time Zone) (d : Derivative Date) : List Int :=
  (candidates instant db d).filter fun t => d.expiresAt ≠ some t

/-- Of several joined rows the database takes one, whichever it comes to. -/
def rederive (pick : Derivative Date → Nat) (db : Db Date Time Zone) (d : Derivative Date) :
    Derivative Date :=
  let fresh := corrections instant db d
  match fresh[pick d % fresh.length]? with
  | some t => { d with expiresAt := some t }
  | none => d

def rederived (pick : Derivative Date → Nat) (db : Db Date Time Zone) : Db Date Time Zone :=
  { db with derivative := db.derivative.map (rederive instant pick db) }

def isReadable (db : Db Date Time Zone) : Bool :=
  db.derivative.all fun d => (readings instant db d).all Option.isSome

/-- One zone the database does not know, in any row joined, fails the UPDATE. -/
def recomputeExpiresAt (pick : Derivative Date → Nat) (db : Db Date Time Zone) :
    Option (Db Date Time Zone) :=
  if isReadable instant db then some (rederived instant pick db) else none

def rowsAffected (db : Db Date Time Zone) : Nat :=
  (db.derivative.filter fun d => corrections instant db d ≠ []).length

def hasPassed (db : Db Date Time Zone) (now : Int) (i : Instrument) : Bool :=
  db.derivative.any fun d => d.instrumentId = i.id && d.expiresAt.any (· < now)

def sweepExpired (now : Int) (db : Db Date Time Zone) : Db Date Time Zone :=
  { db with
    instrument := db.instrument.map fun i =>
      if i.status = .active && hasPassed db now i then { i with status := .expired } else i }

/-- The statements of a pass: the timer's and the admin's may run into each other. -/
inductive Statement (Date : Type) where
  | recompute (pick : Derivative Date → Nat)
  | sweep (now : Int)

def run (db : Db Date Time Zone) : Statement Date → Db Date Time Zone
  | .recompute pick => (recomputeExpiresAt instant pick db).getD db
  | .sweep now => sweepExpired now db

def Readable (db : Db Date Time Zone) : Prop :=
  ∀ d ∈ db.derivative, none ∉ readings instant db d

/-- The calendars of the contract's venue agree on when it expires. -/
def AgreedOn (db : Db Date Time Zone) (d : Derivative Date) : Prop :=
  ∀ t ∈ candidates instant db d, ∀ t' ∈ candidates instant db d, t = t'

def Agreed (db : Db Date Time Zone) : Prop := ∀ d ∈ db.derivative, AgreedOn instant db d

/-- The contract's instant by the calendars, and where they have none the stored one. -/
def due (db : Db Date Time Zone) (d : Derivative Date) : Option Int :=
  (candidates instant db d).head?.or d.expiresAt

def dueBefore (db : Db Date Time Zone) (times : List Int) (i : Instrument) : Bool :=
  db.derivative.any fun d =>
    d.instrumentId = i.id && (due instant db d).any fun t => times.any (t < ·)

def sweeps (statements : List (Statement Date)) : List Int :=
  statements.filterMap fun
    | .sweep now => some now
    | .recompute _ => none

/-- Every contract with its instant, and of the active instruments those retired whose
    contracts were due before a sweep. -/
def settled (db : Db Date Time Zone) (times : List Int) : Db Date Time Zone :=
  { db with
    derivative := db.derivative.map fun d => { d with expiresAt := due instant db d }
    instrument := db.instrument.map fun i =>
      if i.status = .active && dueBefore instant db times i then { i with status := .expired }
      else i }

variable {instant} {db : Db Date Time Zone}

theorem readings_stored (d : Derivative Date) (t : Option Int) :
    readings instant db { d with expiresAt := t } = readings instant db d := rfl

theorem candidates_stored (d : Derivative Date) (t : Option Int) :
    candidates instant db { d with expiresAt := t } = candidates instant db d := rfl

theorem readings_instrument {change : Instrument → Instrument}
    (id_ : ∀ i, (change i).id = i.id) (venue : ∀ i, (change i).venue = i.venue)
    (d : Derivative Date) :
    readings instant { db with instrument := db.instrument.map change } d =
      readings instant db d := by
  unfold readings
  dsimp only
  rw [List.filter_map, List.flatMap_map]
  have same : ((fun i : Instrument => decide (i.id = d.instrumentId)) ∘ change) =
      fun i => decide (i.id = d.instrumentId) := by
    funext i
    simp only [Function.comp_apply, id_]
  rw [same]
  exact List.flatMap_congr fun i _ => by rw [venue]

theorem readings_settled (times : List Int) (d : Derivative Date) :
    readings instant (settled instant db times) d = readings instant db d := by
  let retire : Instrument → Instrument := fun i =>
    if i.status = .active && dueBefore instant db times i then { i with status := .expired } else i
  have keeps : ∀ i, (retire i).id = i.id ∧ (retire i).venue = i.venue := by
    intro i
    simp only [retire]
    split <;> exact ⟨rfl, rfl⟩
  have kept := @readings_instrument _ _ _ instant db retire
  exact kept (fun i => (keeps i).1) (fun i => (keeps i).2) d

theorem candidates_settled (times : List Int) (d : Derivative Date) :
    candidates instant (settled instant db times) d = candidates instant db d :=
  congrArg (List.filterMap id) (readings_settled times d)

theorem readings_rederive (pick : Derivative Date → Nat) (d : Derivative Date) :
    readings instant db (rederive instant pick db d) = readings instant db d := by
  unfold rederive
  dsimp only
  split
  · exact readings_stored d _
  · rfl

theorem candidates_rederive (pick : Derivative Date → Nat) (d : Derivative Date) :
    candidates instant db (rederive instant pick db d) = candidates instant db d :=
  congrArg (List.filterMap id) (readings_rederive pick d)

theorem is_readable : isReadable instant db = true ↔ Readable instant db := by
  simp only [isReadable, Readable, List.all_eq_true]
  refine forall₂_congr fun d _ => ?_
  constructor
  · intro all missing
    cases all none missing
  · intro known reading member
    cases reading with
    | none => exact absurd member known
    | some t => rfl

theorem recompute_readable (readable : Readable instant db) (pick : Derivative Date → Nat) :
    recomputeExpiresAt instant pick db = some (rederived instant pick db) :=
  if_pos (is_readable.mpr readable)

theorem rederived_readable (readable : Readable instant db) (pick : Derivative Date → Nat) :
    Readable instant (rederived instant pick db) := by
  intro d' member
  obtain ⟨d, there, rfl⟩ := List.mem_map.mp member
  have same : readings instant (rederived instant pick db) (rederive instant pick db d) =
      readings instant db d := readings_rederive pick d
  rw [same]
  exact readable d there

theorem settled_readable (readable : Readable instant db) (times : List Int) :
    Readable instant (settled instant db times) := by
  intro d' member
  obtain ⟨d, there, rfl⟩ := List.mem_map.mp member
  rw [readings_settled, readings_stored]
  exact readable d there

/-- A pass leaves what is stored alone, or takes one of the instants it differs from. -/
theorem rederive_cases (pick : Derivative Date → Nat) (d : Derivative Date) :
    (corrections instant db d = [] ∧ rederive instant pick db d = d) ∨
      ∃ t ∈ corrections instant db d, rederive instant pick db d = { d with expiresAt := some t } := by
  unfold rederive
  dsimp only
  cases fresh : corrections instant db d with
  | nil => exact Or.inl ⟨rfl, rfl⟩
  | cons t rest =>
    right
    have inside : pick d % (t :: rest).length < (t :: rest).length :=
      Nat.mod_lt _ (by simp)
    rw [List.getElem?_eq_getElem inside]
    exact ⟨_, List.getElem_mem inside, rfl⟩

theorem mem_corrections {d : Derivative Date} {t : Int} :
    t ∈ corrections instant db d ↔ t ∈ candidates instant db d ∧ d.expiresAt ≠ some t := by
  simp [corrections]

/-- After a pass a contract's row is written again by the next one exactly when its
    calendars disagree. -/
theorem rewritten_iff (pick : Derivative Date → Nat) (d : Derivative Date) :
    corrections instant db (rederive instant pick db d) = [] ↔ AgreedOn instant db d := by
  rw [List.eq_nil_iff_forall_not_mem]
  simp only [mem_corrections, candidates_rederive, not_and, not_not]
  rcases @rederive_cases _ _ _ instant db pick d with ⟨none_, same⟩ | ⟨s, fresh, same⟩
  · rw [same]
    have stored : ∀ t ∈ candidates instant db d, d.expiresAt = some t := by
      intro t member
      by_contra other
      have wrong := mem_corrections.mpr ⟨member, other⟩
      rw [none_] at wrong
      cases wrong
    refine iff_of_true stored ?_
    intro t member t' member'
    exact Option.some.inj ((stored t member).symm.trans (stored t' member'))
  · rw [same]
    have there := (mem_corrections.mp fresh).1
    simp only [Option.some.injEq]
    constructor
    · intro all t member t' member'
      exact (all t member).symm.trans (all t' member')
    · intro all t member
      exact all s there t member

theorem rows_zero : rowsAffected instant db = 0 ↔
    ∀ d ∈ db.derivative, corrections instant db d = [] := by
  simp [rowsAffected]

theorem rederive_same (pick : Derivative Date → Nat) (d : Derivative Date) :
    rederive instant pick db d = d ↔ corrections instant db d = [] := by
  rcases @rederive_cases _ _ _ instant db pick d with ⟨none_, same⟩ | ⟨t, fresh, same⟩
  · exact iff_of_true same none_
  · refine iff_of_false (fun kept => ?_) (List.ne_nil_of_mem fresh)
    rw [same] at kept
    exact (mem_corrections.mp fresh).2 (congrArg Derivative.expiresAt kept).symm

structure Passed (instant : Date → Time → Zone → Option Int) (db after : Db Date Time Zone) :
    Prop where
  readable : Readable instant after
  candidates : ∀ d, candidates instant after d = OmsExpiry.candidates instant db d
  rows : List.Forall₂ (fun d d' => OmsExpiry.candidates instant db d' =
      OmsExpiry.candidates instant db d ∧
      (corrections instant after d' = [] ↔ AgreedOn instant db d)) db.derivative after.derivative

theorem first_passed (readable : Readable instant db) (pick : Derivative Date → Nat) :
    Passed instant db (rederived instant pick db) where
  readable := rederived_readable readable pick
  candidates _ := rfl
  rows := List.forall₂_map_right_iff.mpr
    (List.forall₂_same.mpr fun d _ => ⟨candidates_rederive pick d, rewritten_iff pick d⟩)

theorem next_passed {after : Db Date Time Zone} (passed : Passed instant db after)
    (pick : Derivative Date → Nat) : Passed instant db (rederived instant pick after) where
  readable := rederived_readable passed.readable pick
  candidates := passed.candidates
  rows := by
    refine List.forall₂_map_right_iff.mpr (passed.rows.imp ?_)
    rintro d d' ⟨same, _⟩
    have own : candidates instant after d' = candidates instant db d :=
      (passed.candidates d').trans same
    have agreed : AgreedOn instant after d' ↔ AgreedOn instant db d := by
      rw [AgreedOn, AgreedOn, own]
    refine ⟨?_, (rewritten_iff pick d').trans agreed⟩
    have kept := @candidates_rederive _ _ _ instant after pick d'
    rw [← passed.candidates, kept, own]

theorem passes_passed {after : Db Date Time Zone} (passed : Passed instant db after)
    (picks : List (Derivative Date → Nat)) :
    ∃ last, picks.foldlM (fun db pick => recomputeExpiresAt instant pick db) after = some last ∧
      Passed instant db last := by
  induction picks generalizing after with
  | nil => exact ⟨after, rfl, passed⟩
  | cons pick picks ih =>
    obtain ⟨last, went, done⟩ := ih (next_passed passed pick)
    refine ⟨last, ?_, done⟩
    rw [List.foldlM_cons, recompute_readable passed.readable]
    exact went

/-- With a zone that is not known every pass fails. Else, after any passes, the next
    one writes nothing exactly when no venue's calendars disagree on a contract of its
    own, and it rewrites just the rows on which they do. -/
theorem recompute_settles_iff (instant : Date → Time → Zone → Option Int)
    (db : Db Date Time Zone) :
    (¬ Readable instant db → ∀ pick, recomputeExpiresAt instant pick db = none) ∧
    (Readable instant db → ∀ first picks, ∃ after,
      (first :: picks).foldlM (fun db pick => recomputeExpiresAt instant pick db) db = some after ∧
      (rowsAffected instant after = 0 ↔ Agreed instant db) ∧
      ∀ next, List.Forall₂
        (fun d d' => rederive instant next after d' ≠ d' ↔ ¬ AgreedOn instant db d)
        db.derivative after.derivative) := by
  constructor
  · intro unread pick
    exact if_neg fun all => unread (is_readable.mp all)
  · intro readable first picks
    obtain ⟨after, went, passed⟩ := passes_passed (first_passed readable first) picks
    refine ⟨after, ?_, ?_, fun next => ?_⟩
    · rw [List.foldlM_cons, recompute_readable readable]
      exact went
    · rw [rows_zero]
      exact Lists.paired_forall (passed.rows.imp fun _ _ row => row.2)
    · exact passed.rows.imp fun d d' row => not_congr ((rederive_same next d').trans row.2)

theorem due_candidate {d : Derivative Date} {t : Int} (agreed : AgreedOn instant db d)
    (member : t ∈ candidates instant db d) : due instant db d = some t := by
  unfold due
  cases first : candidates instant db d with
  | nil =>
    rw [first] at member
    cases member
  | cons t' rest =>
    have same := agreed t' (by rw [first]; simp) t member
    rw [same]
    rfl

theorem rederive_due (pick : Derivative Date → Nat) {d : Derivative Date}
    (agreed : AgreedOn instant db d) :
    rederive instant pick db d = { d with expiresAt := due instant db d } := by
  rcases @rederive_cases _ _ _ instant db pick d with ⟨none_, same⟩ | ⟨t, fresh, same⟩
  · rw [same]
    cases first : candidates instant db d with
    | nil =>
      have stored : due instant db d = d.expiresAt := by
        rw [due, first]
        rfl
      rw [stored]
    | cons t rest =>
      have member : t ∈ candidates instant db d := by
        rw [first]
        simp
      have stored : d.expiresAt = some t := by
        by_contra other
        have wrong := mem_corrections.mpr ⟨member, other⟩
        rw [none_] at wrong
        cases wrong
      rw [due_candidate agreed member, ← stored]
  · rw [same, due_candidate agreed (mem_corrections.mp fresh).1]

theorem due_settled (times : List Int) (d : Derivative Date) :
    due instant (settled instant db times) { d with expiresAt := due instant db d } =
      due instant db d := by
  unfold due
  rw [candidates_settled, candidates_stored]
  cases candidates instant db d <;> rfl

theorem recompute_start (readable : Readable instant db) (agreed : Agreed instant db)
    (pick : Derivative Date → Nat) :
    recomputeExpiresAt instant pick db = some (settled instant db []) := by
  have none_due : ∀ i, dueBefore instant db [] i = false := by
    intro i
    simp [dueBefore]
  rw [recompute_readable readable, rederived, settled]
  simp only [none_due, Bool.and_false, Bool.false_eq_true, if_false, List.map_id']
  congr 2
  exact List.map_congr_left fun d member => rederive_due pick (agreed d member)

theorem recompute_settled (readable : Readable instant db) (agreed : Agreed instant db)
    (pick : Derivative Date → Nat) (times : List Int) :
    recomputeExpiresAt instant pick (settled instant db times) =
      some (settled instant db times) := by
  rw [recompute_readable (settled_readable readable times), rederived]
  have same : (settled instant db times).derivative.map
      (rederive instant pick (settled instant db times)) = (settled instant db times).derivative := by
    refine List.map_congr_left (g := id) (fun d' member => ?_) |>.trans (List.map_id _)
    obtain ⟨d, there, rfl⟩ := List.mem_map.mp member
    have all : AgreedOn instant (settled instant db times)
        { d with expiresAt := due instant db d } := by
      rw [AgreedOn, candidates_settled, candidates_stored]
      exact agreed d there
    rw [rederive_due pick all, due_settled]
    rfl
  rw [same]

theorem due_before_snoc (times : List Int) (now : Int) (i : Instrument) :
    dueBefore instant db (times ++ [now]) i =
      (dueBefore instant db times i || dueBefore instant db [now] i) := by
  simp only [dueBefore]
  rw [Bool.eq_iff_iff]
  simp only [List.any_eq_true, Bool.and_eq_true, decide_eq_true_eq, Option.any_eq_true,
    List.mem_append, List.mem_singleton, Bool.or_eq_true]
  constructor
  · rintro ⟨d, member, own, t, at_, time, old | new, late⟩
    · exact Or.inl ⟨d, member, own, t, at_, time, old, late⟩
    · exact Or.inr ⟨d, member, own, t, at_, time, new, late⟩
  · rintro (⟨d, member, own, t, at_, time, old, late⟩ | ⟨d, member, own, t, at_, time, new, late⟩)
    · exact ⟨d, member, own, t, at_, time, Or.inl old, late⟩
    · exact ⟨d, member, own, t, at_, time, Or.inr new, late⟩

theorem passed_settled (times : List Int) (now : Int) (i : Instrument) :
    hasPassed (settled instant db times) now i = dueBefore instant db [now] i := by
  simp only [hasPassed, settled, dueBefore, List.any_map]
  refine List.any_congr rfl fun d => ?_
  simp

theorem sweep_settled (times : List Int) (now : Int) :
    sweepExpired now (settled instant db times) = settled instant db (times ++ [now]) := by
  unfold sweepExpired
  simp only [passed_settled]
  simp only [settled, List.map_map]
  congr 1
  refine List.map_congr_left fun i _ => ?_
  have own : ∀ status, dueBefore instant db [now] { i with status } =
      dueBefore instant db [now] i := fun _ => rfl
  simp only [Function.comp_apply, due_before_snoc]
  by_cases active : i.status = .active
  · cases dueBefore instant db times i <;> cases second : dueBefore instant db [now] i <;>
      simp [active, own, second]
  · simp [active]

/-- Where zones are known and calendars agree, however passes run into each other,
    from the first recompute on every contract has
    its venue's instant and the instruments retired are those active ones whose
    contracts were due before one of the sweeps. -/
theorem passes_settle (instant : Date → Time → Zone → Option Int) (db : Db Date Time Zone)
    (readable : Readable instant db) (agreed : Agreed instant db) (pick : Derivative Date → Nat)
    (rest : List (Statement Date)) :
    (Statement.recompute pick :: rest).foldl (run instant) db =
      settled instant db (sweeps rest) := by
  induction rest using List.reverseRecOn with
  | nil =>
    simp only [List.foldl_cons, List.foldl_nil, run, recompute_start readable agreed,
      Option.getD_some]
    rfl
  | append_singleton rest s ih =>
    rw [← List.cons_append, List.foldl_append, ih]
    cases s with
    | recompute pick' =>
      simp only [List.foldl_cons, List.foldl_nil, run, recompute_settled readable agreed,
        Option.getD_some]
      simp [sweeps]
    | sweep now =>
      simp only [List.foldl_cons, List.foldl_nil, run, sweep_settled]
      simp [sweeps]

/-- Hours of dates, closes and zones counted from one midnight; no zone is a day off. -/
def hours (date close zone : Nat) : Option Int :=
  if zone < 24 then some (24 * date + close - zone) else none

def options : Db Nat Nat Nat where
  instrument := [⟨1, "OPRA", .active⟩, ⟨2, "OPRA", .halted⟩, ⟨3, "BINANCE", .active⟩]
  derivative := [⟨1, some 3, none⟩, ⟨2, some 3, none⟩]
  venue := [⟨10, "OPRA"⟩, ⟨11, "BINANCE"⟩]
  calendar := [⟨"OPRA", some 10, 0, some 20⟩, ⟨"BINANCE", some 11, 0, none⟩]

theorem options_settle :
    (Statement.recompute (fun _ => 0) :: [.sweep 80, .recompute fun _ => 0, .sweep 93]).foldl
      (run hours) options = settled hours options [80, 93] :=
  passes_settle hours options (by unfold Readable; decide) (by unfold Agreed AgreedOn; decide)
    (fun _ => 0) _

example : (settled hours options [80, 93]).instrument.map Instrument.status =
    [.expired, .halted, .active] := by decide

end OmsExpiry
