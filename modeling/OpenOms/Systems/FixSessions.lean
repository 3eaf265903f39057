import OpenOms.Library.Lists
import OpenOms.Library.Runs
import Mathlib.Data.List.Basic
import Mathlib.Logic.Function.Basic

/-!
Which strategies are logged on. Every acceptor reports its sessions' logons and
logouts on a queue of its own, worked off by a task that outlives the acceptor;
the tasks share one set of live strategies, and a logon is checked against it.
-/
namespace OmsFixSessions
open Lists Runs
variable {K S : Type}

structure Registry (K S : Type) where
  byCompIds : K → Option S
  sessionKey : S → K
  owned : ∀ {key code}, byCompIds key = some code → sessionKey code = key

inductive Inbound where
  | loggedOn
  | loggedOut
  deriving DecidableEq, Repr

/-- One acceptor's `run` and the events it has not handled; `half` while the
    first of them is: live but not a session, or no session but live. -/
structure RunTask (K S : Type) where
  queue : List (K × Inbound)
  half : Option S
  deriving DecidableEq, Repr

structure Acceptor (K : Type) where
  checked : List K
  on : List K
  deriving DecidableEq, Repr

structure FixSessions (K S : Type) where
  live : S → Bool
  sessions : K → Option S
  tasks : List (RunTask K S)
  acceptor : Option (Acceptor K)

def FixSessions.start : FixSessions K S := ⟨fun _ => false, fun _ => none, [], none⟩

inductive Action (K : Type) where
  | start
  | stop
  | check (key : K)
  | logon (key : K)
  | abandon (key : K)
  | refuse (key : K)
  | disconnect (key : K)
  | take (i : Nat)
  | finish (i : Nat)
  deriving DecidableEq, Repr

def report (tasks : List (RunTask K S)) (events : List (K × Inbound)) : List (RunTask K S) :=
  match tasks with
  | [] => []
  | task :: older => { task with queue := task.queue ++ events } :: older

variable [DecidableEq K] [DecidableEq S]

def beginEvent (registry : Registry K S) (s : FixSessions K S) (key : K) :
    Inbound → FixSessions K S × Option S
  | .loggedOn =>
    match registry.byCompIds key with
    | none => (s, none)
    | some code => ({ s with live := Function.update s.live code true }, some code)
  | .loggedOut =>
    match s.sessions key with
    | none => (s, none)
    | some code => ({ s with sessions := Function.update s.sessions key none }, some code)

def finishEvent (s : FixSessions K S) (key : K) (code : S) : Inbound → FixSessions K S
  | .loggedOn => { s with sessions := Function.update s.sessions key (some code) }
  | .loggedOut => { s with live := Function.update s.live code false }

def step (registry : Registry K S) (s : FixSessions K S) : Action K → Option (FixSessions K S)
  | .start =>
    match s.acceptor with
    | none => some { s with tasks := ⟨[], none⟩ :: s.tasks, acceptor := some ⟨[], []⟩ }
    | some _ => none
  | .stop =>
    match s.acceptor with
    | none => none
    | some acceptor =>
      some { s with
        tasks := report s.tasks (acceptor.on.map fun key => (key, .loggedOut))
        acceptor := none }
  | .check key =>
    match s.acceptor, registry.byCompIds key with
    | some acceptor, some code =>
      if s.live code ∨ key ∈ acceptor.checked ∨ key ∈ acceptor.on then none
      else some { s with acceptor := some { acceptor with checked := key :: acceptor.checked } }
    | _, _ => none
  | .logon key =>
    match s.acceptor with
    | none => none
    | some acceptor =>
      if key ∈ acceptor.checked then
        some { s with
          tasks := report s.tasks [(key, .loggedOn)]
          acceptor := some ⟨acceptor.checked.erase key, key :: acceptor.on⟩ }
      else none
  | .abandon key =>
    s.acceptor.map fun acceptor =>
      { s with acceptor := some { acceptor with checked := acceptor.checked.erase key } }
  | .refuse key =>
    match s.acceptor with
    | none => none
    | some acceptor =>
      if key ∈ acceptor.on then none
      else some { s with tasks := report s.tasks [(key, .loggedOut)] }
  | .disconnect key =>
    match s.acceptor with
    | none => none
    | some acceptor =>
      if key ∈ acceptor.on then
        some { s with
          tasks := report s.tasks [(key, .loggedOut)]
          acceptor := some { acceptor with on := acceptor.on.filter (· ≠ key) } }
      else none
  | .take i =>
    match s.tasks[i]? with
    | some ⟨(key, event) :: rest, none⟩ =>
      let (begun, half) := beginEvent registry s key event
      let task := if half.isSome then ⟨(key, event) :: rest, half⟩ else ⟨rest, none⟩
      some { begun with tasks := s.tasks.set i task }
    | _ => none
  | .finish i =>
    match s.tasks[i]? with
    | some ⟨(key, event) :: rest, some code⟩ =>
      some { finishEvent s key code event with tasks := s.tasks.set i ⟨rest, none⟩ }
    | _ => none

def LoggedOn (s : FixSessions K S) (key : K) : Prop := ∃ acceptor ∈ s.acceptor, key ∈ acceptor.on

instance (s : FixSessions K S) (key : K) : Decidable (LoggedOn s key) := by
  unfold LoggedOn
  infer_instance

/-- Once every event has been handled, a strategy is live exactly when a session
    of it is logged on. -/
def Truthful (registry : Registry K S) (s : FixSessions K S) : Prop :=
  (∀ task ∈ s.tasks, task.queue = []) →
    ∀ code, s.live code ↔ ∃ key, registry.byCompIds key = some code ∧ LoggedOn s key

def Quiet (tasks : List (RunTask K S)) (key : K) : Prop :=
  ∀ task ∈ tasks, ∀ event ∈ task.queue, event.1 ≠ key

instance (tasks : List (RunTask K S)) (key : K) : Decidable (Quiet tasks key) := by
  unfold Quiet
  infer_instance

/-- A task takes up an event of a session while an older acceptor's task still has
    one of that session to handle. -/
def Overtakes (s : FixSessions K S) (a : Action K) : Prop :=
  match a with
  | .take i => ∃ task ∈ s.tasks[i]?, ∃ event ∈ task.queue.head?,
      ¬ Quiet (s.tasks.drop (i + 1)) event.1
  | _ => False

instance (s : FixSessions K S) (a : Action K) : Decidable (Overtakes s a) := by
  unfold Overtakes
  split <;> infer_instance

def pending : List (RunTask K S) → K → List Inbound
  | [], _ => []
  | task :: older, key =>
    pending older key ++ (task.queue.filter (·.1 = key)).map (·.2)

def after (on : Bool) (events : List Inbound) : Bool :=
  events.foldl (fun _ event => event = .loggedOn) on

/-- The events left lead from what the tasks have stored to what the acceptor holds,
    and an event half handled is the oldest of its session. -/
structure Inv (registry : Registry K S) (s : FixSessions K S) : Prop where
  reports : s.acceptor.isSome → s.tasks ≠ []
  registered : ∀ key, LoggedOn s key ∨ (∃ acceptor ∈ s.acceptor, key ∈ acceptor.checked) →
    (registry.byCompIds key).isSome
  stored : ∀ key code, s.sessions key = some code → registry.byCompIds key = some code
  known : ∀ code, s.live code → ∃ key, registry.byCompIds key = some code
  told : ∀ key code, registry.byCompIds key = some code →
    after (s.sessions key).isSome (pending s.tasks key) = decide (LoggedOn s key)
  halves : ∀ (i : Nat) (task : RunTask K S) (code : S), s.tasks[i]? = some task →
    task.half = some code → ∃ key event rest, task.queue = (key, event) :: rest ∧
      registry.byCompIds key = some code ∧ Quiet (s.tasks.drop (i + 1)) key ∧
      if event = .loggedOn then s.live code = true else s.sessions key = none
  settled : ∀ key code, registry.byCompIds key = some code →
    (∀ task ∈ s.tasks, task.half ≠ some code) → s.live code = (s.sessions key).isSome

omit [DecidableEq S] in
theorem start_inv (registry : Registry K S) : Inv registry .start := by
  refine ⟨?_, ?_, ?_, ?_, ?_, ?_, ?_⟩ <;>
    simp [FixSessions.start, LoggedOn, pending, after]

@[simp] theorem after_nil (on : Bool) : after on [] = on := rfl

@[simp] theorem after_cons (on : Bool) (event : Inbound) (events : List Inbound) :
    after on (event :: events) = after (event = .loggedOn) events := rfl

theorem after_append (on : Bool) (early late : List Inbound) :
    after on (early ++ late) = after (after on early) late := by
  simp [after]

theorem after_logouts (on : Bool) {events : List Inbound}
    (logouts : ∀ event ∈ events, event = .loggedOut) :
    after on events = (on && events.isEmpty) := by
  induction events generalizing on with
  | nil => simp
  | cons event events ih =>
    obtain ⟨rfl, later⟩ := List.forall_mem_cons.mp logouts
    rw [after_cons, ih _ later]
    simp

omit [DecidableEq S] in
theorem pending_report {tasks : List (RunTask K S)} (some_ : tasks ≠ [])
    (events : List (K × Inbound)) (key : K) :
    pending (report tasks events) key =
      pending tasks key ++ (events.filter (·.1 = key)).map (·.2) := by
  cases tasks with
  | nil => exact absurd rfl some_
  | cons task older => simp [report, pending]

omit [DecidableEq S] in
theorem quiet_pending {tasks : List (RunTask K S)} {key : K} (quiet : Quiet tasks key) :
    pending tasks key = [] := by
  induction tasks with
  | nil => rfl
  | cons task older ih =>
    obtain ⟨first, rest⟩ := List.forall_mem_cons.mp quiet
    have none_ : task.queue.filter (·.1 = key) = [] :=
      List.filter_eq_nil_iff.mpr fun event member => by simpa using first event member
    simp [pending, ih rest, none_]

omit [DecidableEq S] in
theorem pending_pop {tasks : List (RunTask K S)} {key : K} {event : Inbound}
    {rest : List (K × Inbound)} {half : Option S} :
    ∀ {i : Nat}, tasks[i]? = some ⟨(key, event) :: rest, half⟩ → Quiet (tasks.drop (i + 1)) key →
      pending tasks key = event :: pending (tasks.set i ⟨rest, none⟩) key := by
  induction tasks with
  | nil => intro i there; cases there
  | cons task older ih =>
    intro i there quiet
    cases i with
    | zero =>
      cases there
      have none_ : pending older key = [] := quiet_pending quiet
      simp [pending, none_]
    | succ i =>
      have first := ih there quiet
      simp only [pending, List.set_cons_succ, first, List.cons_append]

omit [DecidableEq S] in
theorem pending_set {tasks : List (RunTask K S)} {task new : RunTask K S} {key : K}
    (same : new.queue.filter (·.1 = key) = task.queue.filter (·.1 = key)) :
    ∀ {i : Nat}, tasks[i]? = some task → pending (tasks.set i new) key = pending tasks key := by
  induction tasks with
  | nil => intro i there; cases there
  | cons first older ih =>
    intro i there
    cases i with
    | zero =>
      cases there
      simp [pending, same]
    | succ i => simp [pending, ih there]

omit [DecidableEq K] [DecidableEq S] in
theorem quiet_set {tasks : List (RunTask K S)} {task new : RunTask K S} {key : K} {i n : Nat}
    (there : tasks[i]? = some task) (fewer : ∀ event ∈ new.queue, event ∈ task.queue)
    (quiet : Quiet (tasks.drop n) key) : Quiet ((tasks.set i new).drop n) key := by
  rw [List.drop_set]
  split
  · exact quiet
  · rename_i inside
    have member : task ∈ tasks.drop n := by
      refine List.mem_of_getElem? (i := i - n) ?_
      rw [List.getElem?_drop, ← there]
      congr 1
      omega
    refine forall_mem_set quiet fun event left => ?_
    exact quiet task member event (fewer event left)

omit [DecidableEq S] in
theorem half_alone {registry : Registry K S} {s : FixSessions K S} (inv : Inv registry s)
    {i : Nat} {key : K} {event : Inbound} {rest : List (K × Inbound)} {half : Option S}
    (there : s.tasks[i]? = some ⟨(key, event) :: rest, half⟩)
    (quiet : Quiet (s.tasks.drop (i + 1)) key) {code : S}
    (registered : registry.byCompIds key = some code) {j : Nat} {other : RunTask K S}
    (found : s.tasks[j]? = some other) (mid : other.half = some code) : j = i := by
  obtain ⟨key', event', rest', queue, registered', quiet', _⟩ := inv.halves j other code found mid
  have same : key' = key := (registry.owned registered').symm.trans (registry.owned registered)
  subst same
  have later : ∀ {m n : Nat} {task : RunTask K S}, s.tasks[n]? = some task → m < n →
      task ∈ s.tasks.drop (m + 1) := by
    intro m n task found' less
    refine List.mem_of_getElem? (i := n - (m + 1)) ?_
    rw [List.getElem?_drop, ← found']
    congr 1
    omega
  rcases Nat.lt_trichotomy j i with newer | same | older
  · exact absurd rfl (quiet' _ (later there newer) (key', event) (by simp))
  · exact same
  · exact absurd rfl (quiet other (later found older) (key', event') (by simp [queue]))

omit [DecidableEq S] in
theorem pop_keeps {registry : Registry K S} {s : FixSessions K S} (inv : Inv registry s)
    {i : Nat} {key : K} {event : Inbound} {rest : List (K × Inbound)} {half : Option S}
    {live : S → Bool} {sessions : K → Option S}
    (there : s.tasks[i]? = some ⟨(key, event) :: rest, half⟩)
    (quiet : Quiet (s.tasks.drop (i + 1)) key)
    (elsewhere : ∀ code, registry.byCompIds key ≠ some code → live code = s.live code)
    (apart : ∀ other ≠ key, sessions other = s.sessions other)
    (stored : ∀ code, sessions key = some code → registry.byCompIds key = some code)
    (tells : ∀ code, registry.byCompIds key = some code →
      (sessions key).isSome = decide (event = .loggedOn) ∧
        live code = decide (event = .loggedOn)) :
    Inv registry ⟨live, sessions, s.tasks.set i ⟨rest, none⟩, s.acceptor⟩ := by
  have fewer : ∀ event' ∈ rest, event' ∈ (key, event) :: rest := fun _ => List.mem_cons_of_mem _
  refine ⟨?_, inv.registered, ?_, ?_, ?_, ?_, ?_⟩
  · intro runs
    simpa using inv.reports runs
  · intro other code found
    by_cases same : other = key
    · subst same
      exact stored code found
    · exact inv.stored other code ((apart other same).symm.trans found)
  · intro code isLive
    by_cases registered : registry.byCompIds key = some code
    · exact ⟨key, registered⟩
    · exact inv.known code ((elsewhere code registered).symm.trans isLive)
  · intro other code registered
    have told := inv.told other code registered
    by_cases same : other = key
    · subst same
      rw [pending_pop there quiet, after_cons] at told
      rw [(tells code registered).1]
      exact told
    · show after (sessions other).isSome (pending (s.tasks.set i ⟨rest, none⟩) other) = _
      rw [apart other same, pending_set ?_ there]
      · exact told
      · simp [Ne.symm same]
  · intro j other code found mid
    rcases at_set found with ⟨_, rfl⟩ | ⟨away, old⟩
    · cases mid
    · obtain ⟨key', event', rest', queue, registered, quiet', stands⟩ :=
        inv.halves j other code old mid
      have different : key' ≠ key := by
        rintro rfl
        exact away (half_alone inv there quiet registered old mid)
      have kept : live code = s.live code := by
        refine elsewhere code fun registered' => different ?_
        exact (registry.owned registered).symm.trans (registry.owned registered')
      refine ⟨key', event', rest', queue, registered, quiet_set there fewer quiet', ?_⟩
      simpa [kept, apart key' different] using stands
  · intro other code registered idle
    by_cases same : other = key
    · subst same
      exact (tells code registered).2.trans (tells code registered).1.symm
    · have different : registry.byCompIds key ≠ some code := fun registered' =>
        same ((registry.owned registered).symm.trans (registry.owned registered'))
      show live code = (sessions other).isSome
      rw [apart other same, elsewhere code different]
      refine inv.settled other code registered ?_
      intro task member mid
      obtain ⟨j, found⟩ := List.mem_iff_getElem?.mp member
      by_cases here : j = i
      · subst here
        cases there.symm.trans found
        obtain ⟨key', _, _, queue, registered', _⟩ := inv.halves j _ code there mid
        cases queue
        exact different registered'
      · refine idle task (List.mem_of_getElem? (i := j) ?_) mid
        rw [List.getElem?_set_ne (Ne.symm here)]
        exact found

omit [DecidableEq S] in
theorem half_keeps {registry : Registry K S} {s : FixSessions K S} (inv : Inv registry s)
    {i : Nat} {key : K} {event : Inbound} {rest : List (K × Inbound)} {code : S}
    {live : S → Bool} {sessions : K → Option S}
    (there : s.tasks[i]? = some ⟨(key, event) :: rest, none⟩)
    (quiet : Quiet (s.tasks.drop (i + 1)) key) (registered : registry.byCompIds key = some code)
    (elsewhere : ∀ other ≠ code, live other = s.live other)
    (apart : ∀ other ≠ key, sessions other = s.sessions other)
    (stored : ∀ other, sessions key = some other → registry.byCompIds key = some other)
    (stands : if event = .loggedOn then live code = true else sessions key = none) :
    Inv registry ⟨live, sessions, s.tasks.set i ⟨(key, event) :: rest, some code⟩, s.acceptor⟩ := by
  have other_code : ∀ {other : K} {code' : S}, other ≠ key →
      registry.byCompIds other = some code' → code' ≠ code := by
    rintro other code' different registered' rfl
    exact different ((registry.owned registered').symm.trans (registry.owned registered))
  refine ⟨?_, inv.registered, ?_, ?_, ?_, ?_, ?_⟩
  · intro runs
    simpa using inv.reports runs
  · intro other code' found
    by_cases same : other = key
    · subst same
      exact stored code' found
    · exact inv.stored other code' ((apart other same).symm.trans found)
  · intro code' isLive
    by_cases same : code' = code
    · subst same
      exact ⟨key, registered⟩
    · exact inv.known code' ((elsewhere code' same).symm.trans isLive)
  · intro other code' registered'
    have told := inv.told other code' registered'
    have kept : pending (s.tasks.set i ⟨(key, event) :: rest, some code⟩) other =
        pending s.tasks other := by
      refine pending_set ?_ there
      rfl
    show after (sessions other).isSome (pending (s.tasks.set i _) other) = _
    rw [kept]
    by_cases same : other = key
    · subst same
      rw [pending_pop there quiet, after_cons] at told ⊢
      exact told
    · rw [apart other same]
      exact told
  · intro j other code' found mid
    rcases at_set found with ⟨rfl, rfl⟩ | ⟨away, old⟩
    · cases mid
      exact ⟨key, event, rest, rfl, registered, quiet_set there (fun _ => id) quiet, stands⟩
    · obtain ⟨key', event', rest', queue, registered', quiet', before⟩ :=
        inv.halves j other code' old mid
      have different : key' ≠ key := by
        rintro rfl
        exact away (half_alone inv there quiet registered' old mid)
      have kept := elsewhere code' (other_code different registered')
      refine ⟨key', event', rest', queue, registered', quiet_set there (fun _ => id) quiet', ?_⟩
      simpa [kept, apart key' different] using before
  · intro other code' registered' idle
    by_cases same : other = key
    · subst same
      cases registered.symm.trans registered'
      refine absurd rfl (idle ⟨(other, event) :: rest, some code⟩ ?_)
      refine List.mem_of_getElem? (i := i) ?_
      simp [(List.getElem?_eq_some_iff.mp there).1]
    · show live code' = (sessions other).isSome
      rw [apart other same, elsewhere code' (other_code same registered')]
      refine inv.settled other code' registered' ?_
      intro task member mid
      obtain ⟨j, found⟩ := List.mem_iff_getElem?.mp member
      by_cases here : j = i
      · subst here
        cases there.symm.trans found
        cases mid
      · refine idle task (List.mem_of_getElem? (i := j) ?_) mid
        rw [List.getElem?_set_ne (Ne.symm here)]
        exact found

omit [DecidableEq S] in
theorem none_half {registry : Registry K S} {s : FixSessions K S} (inv : Inv registry s)
    {i : Nat} {key : K} {event : Inbound} {rest : List (K × Inbound)}
    (there : s.tasks[i]? = some ⟨(key, event) :: rest, none⟩)
    (quiet : Quiet (s.tasks.drop (i + 1)) key) {code : S}
    (registered : registry.byCompIds key = some code) :
    ∀ task ∈ s.tasks, task.half ≠ some code := by
  intro task member mid
  obtain ⟨j, found⟩ := List.mem_iff_getElem?.mp member
  have same := half_alone inv there quiet registered found mid
  subst same
  cases there.symm.trans found
  cases mid

theorem take_keeps {registry : Registry K S} {s t : FixSessions K S} {i : Nat}
    (inv : Inv registry s) (ok : ¬ Overtakes s (.take i))
    (next : step registry s (.take i) = some t) : Inv registry t := by
  simp only [step] at next
  split at next
  · rename_i key event rest there
    have quiet : Quiet (s.tasks.drop (i + 1)) key := by
      by_contra left
      exact ok ⟨_, there, (key, event), rfl, left⟩
    have idle : ∀ code, registry.byCompIds key = some code →
        ∀ task ∈ s.tasks, task.half ≠ some code :=
      fun _ registered => none_half inv there quiet registered
    cases event with
    | loggedOn =>
      cases known : registry.byCompIds key with
      | none =>
        simp only [beginEvent, known, Option.isSome_none, Bool.false_eq_true, if_false,
          Option.some.injEq] at next
        subst next
        refine pop_keeps inv there quiet (fun _ _ => rfl) (fun _ _ => rfl) (inv.stored key) ?_
        intro code registered
        cases known.symm.trans registered
      | some code =>
        simp only [beginEvent, known, Option.isSome_some, if_true, Option.some.injEq] at next
        subst next
        refine half_keeps inv there quiet known ?_ (fun _ _ => rfl) (inv.stored key) ?_
        · exact fun other away => Function.update_of_ne away _ _
        · simp
    | loggedOut =>
      cases session : s.sessions key with
      | none =>
        simp only [beginEvent, session, Option.isSome_none, Bool.false_eq_true, if_false,
          Option.some.injEq] at next
        subst next
        refine pop_keeps inv there quiet (fun _ _ => rfl) (fun _ _ => rfl) (inv.stored key) ?_
        intro code registered
        have settled := inv.settled key code registered (idle code registered)
        simp [settled, session]
      | some code =>
        simp only [beginEvent, session, Option.isSome_some, if_true, Option.some.injEq] at next
        subst next
        have registered := inv.stored key code session
        refine half_keeps inv there quiet registered (fun _ _ => rfl) ?_ ?_ ?_
        · exact fun other away => Function.update_of_ne away _ _
        · simp
        · simp
  · cases next

theorem finish_keeps {registry : Registry K S} {s t : FixSessions K S} {i : Nat}
    (inv : Inv registry s) (next : step registry s (.finish i) = some t) : Inv registry t := by
  simp only [step] at next
  split at next
  · rename_i key event rest code there
    cases next
    obtain ⟨key', event', rest', queue, registered, quiet, stands⟩ :=
      inv.halves i _ code there rfl
    cases queue
    have only : ∀ other, registry.byCompIds key = some other → other = code :=
      fun other found => Option.some.inj (found.symm.trans registered)
    cases event with
    | loggedOn =>
      refine pop_keeps inv there quiet (fun _ _ => rfl) ?_ ?_ ?_
      · exact fun other away => Function.update_of_ne away _ _
      · intro other found
        simp only [finishEvent, Function.update_self] at found
        exact found ▸ registered
      · intro other found
        cases only other found
        simpa [finishEvent] using stands
    | loggedOut =>
      simp only [reduceCtorEq, if_false] at stands
      refine pop_keeps inv there quiet ?_ (fun _ _ => rfl) (inv.stored key) ?_
      · intro other away
        have different : other ≠ code := by
          rintro rfl
          exact away registered
        exact Function.update_of_ne different _ _
      · intro other found
        cases only other found
        simp [finishEvent, stands]
  · cases next

omit [DecidableEq S] in
theorem acceptor_keeps {registry : Registry K S} {s : FixSessions K S} (inv : Inv registry s)
    {acceptor : Option (Acceptor K)} {events : List (K × Inbound)} (there : s.tasks ≠ [])
    (registered : ∀ key, (∃ a ∈ acceptor, key ∈ a.on ∨ key ∈ a.checked) →
      (registry.byCompIds key).isSome)
    (agrees : ∀ key, after (decide (LoggedOn s key))
      ((events.filter (·.1 = key)).map (·.2)) = decide (∃ a ∈ acceptor, key ∈ a.on)) :
    Inv registry { s with tasks := report s.tasks events, acceptor := acceptor } := by
  obtain ⟨first, older, tasks⟩ := List.exists_cons_of_ne_nil there
  refine ⟨?_, ?_, inv.stored, inv.known, ?_, ?_, ?_⟩
  · intro _ none_
    simp [tasks, report] at none_
  · rintro key (⟨a, holds, on⟩ | ⟨a, holds, checked⟩)
    · exact registered key ⟨a, holds, Or.inl on⟩
    · exact registered key ⟨a, holds, Or.inr checked⟩
  · intro key code found
    show after (s.sessions key).isSome (pending (report s.tasks events) key) = _
    rw [pending_report there, after_append, inv.told key code found]
    exact agrees key
  · intro i task code found mid
    simp only [tasks, report] at found
    cases i with
    | zero =>
      cases found
      obtain ⟨key, event, rest, queue, known, quiet, stands⟩ :=
        inv.halves 0 first code (by simp [tasks]) mid
      refine ⟨key, event, rest ++ events, ?_, known, ?_, stands⟩
      · simp [queue]
      · simpa [tasks, report] using quiet
    | succ i =>
      obtain ⟨key, event, rest, queue, known, quiet, stands⟩ :=
        inv.halves (i + 1) task code (by simpa [tasks] using found) mid
      refine ⟨key, event, rest, queue, known, ?_, stands⟩
      simpa [tasks, report] using quiet
  · intro key code found idle
    refine inv.settled key code found ?_
    simpa [tasks, report] using idle

omit [DecidableEq K] [DecidableEq S] in
theorem on_iff {s : FixSessions K S} {acceptor : Acceptor K} (runs : s.acceptor = some acceptor)
    (key : K) : LoggedOn s key ↔ key ∈ acceptor.on := by
  simp [LoggedOn, runs]

omit [DecidableEq S] in
theorem running_tasks {registry : Registry K S} {s : FixSessions K S} {acceptor : Acceptor K}
    (inv : Inv registry s) (runs : s.acceptor = some acceptor) : s.tasks ≠ [] :=
  inv.reports (by simp [runs])

omit [DecidableEq S] in
theorem held_registered {registry : Registry K S} {s : FixSessions K S} {acceptor : Acceptor K}
    (inv : Inv registry s) (runs : s.acceptor = some acceptor) {key : K}
    (held : key ∈ acceptor.on ∨ key ∈ acceptor.checked) : (registry.byCompIds key).isSome := by
  refine inv.registered key (held.imp ?_ ?_)
  · exact fun on => ⟨acceptor, runs, on⟩
  · exact fun checked => ⟨acceptor, runs, checked⟩

omit [DecidableEq S] in
theorem checked_keeps {registry : Registry K S} {s : FixSessions K S} {acceptor : Acceptor K}
    {checked : List K} (inv : Inv registry s) (runs : s.acceptor = some acceptor)
    (known : ∀ key ∈ checked, (registry.byCompIds key).isSome) :
    Inv registry { s with acceptor := some { acceptor with checked := checked } } := by
  have same := @acceptor_keeps K S _ registry s inv (some { acceptor with checked := checked })
    [] (running_tasks inv runs)
  have untouched : report s.tasks [] = s.tasks := by
    cases s.tasks <;> simp [report]
  rw [untouched] at same
  refine same ?_ ?_
  · rintro key ⟨_, ⟨⟩, on | new⟩
    · exact held_registered inv runs (Or.inl on)
    · exact known key new
  · intro key
    simp [on_iff runs key]

theorem start_keeps {registry : Registry K S} {s t : FixSessions K S} (inv : Inv registry s)
    (next : step registry s .start = some t) : Inv registry t := by
  simp only [step] at next
  split at next
  · rename_i idle
    cases next
    have off : ∀ key, ¬ LoggedOn s key := by
      rintro key ⟨acceptor, runs, _⟩
      cases idle.symm.trans runs
    refine ⟨by simp, ?_, inv.stored, inv.known, ?_, ?_, ?_⟩
    · rintro key (⟨_, ⟨⟩, on⟩ | ⟨_, ⟨⟩, checked⟩)
      · cases on
      · cases checked
    · intro key code found
      have told := inv.told key code found
      rw [decide_eq_false (off key)] at told
      simpa [pending, LoggedOn] using told
    · intro i task code found mid
      cases i with
      | zero =>
        cases found
        cases mid
      | succ i => exact inv.halves i task code found mid
    · intro key code found half
      exact inv.settled key code found fun task member =>
        half task (List.mem_cons_of_mem _ member)
  · cases next

theorem stop_keeps {registry : Registry K S} {s t : FixSessions K S} (inv : Inv registry s)
    (next : step registry s .stop = some t) : Inv registry t := by
  simp only [step] at next
  split at next
  · cases next
  · rename_i acceptor runs
    cases next
    refine acceptor_keeps inv (running_tasks inv runs) ?_ ?_
    · rintro key ⟨_, ⟨⟩, _⟩
    · intro key
      rw [after_logouts]
      · by_cases on : key ∈ acceptor.on
        · simp [List.filter_map, on]
        · simp [on, on_iff runs key]
      · intro event member
        obtain ⟨pair, held, rfl⟩ := List.mem_map.mp member
        obtain ⟨other, _, rfl⟩ := List.mem_map.mp (List.mem_filter.mp held).1
        rfl

theorem check_keeps {registry : Registry K S} {s t : FixSessions K S} {key : K}
    (inv : Inv registry s) (next : step registry s (.check key) = some t) : Inv registry t := by
  simp only [step] at next
  split at next
  · rename_i acceptor code runs known
    split at next
    · cases next
    · cases next
      refine checked_keeps inv runs ?_
      intro other member
      rcases List.mem_cons.mp member with rfl | old
      · simp [known]
      · exact held_registered inv runs (Or.inr old)
  · cases next

theorem logon_keeps {registry : Registry K S} {s t : FixSessions K S} {key : K}
    (inv : Inv registry s) (next : step registry s (.logon key) = some t) : Inv registry t := by
  simp only [step] at next
  split at next
  · cases next
  · rename_i acceptor runs
    split at next
    · rename_i checked
      cases next
      refine acceptor_keeps inv (running_tasks inv runs) ?_ ?_
      · rintro other ⟨_, ⟨⟩, on | left⟩
        · rcases List.mem_cons.mp on with rfl | old
          · exact held_registered inv runs (Or.inr checked)
          · exact held_registered inv runs (Or.inl old)
        · exact held_registered inv runs (Or.inr (List.mem_of_mem_erase left))
      · intro other
        by_cases same : key = other
        · simp [same]
        · simp [same, Ne.symm same, on_iff runs other]
    · cases next

theorem abandon_keeps {registry : Registry K S} {s t : FixSessions K S} {key : K}
    (inv : Inv registry s) (next : step registry s (.abandon key) = some t) :
    Inv registry t := by
  simp only [step, Option.map_eq_some_iff] at next
  obtain ⟨acceptor, runs, rfl⟩ := next
  refine checked_keeps inv runs fun other member => ?_
  exact held_registered inv runs (Or.inr (List.mem_of_mem_erase member))

theorem refuse_keeps {registry : Registry K S} {s t : FixSessions K S} {key : K}
    (inv : Inv registry s) (next : step registry s (.refuse key) = some t) : Inv registry t := by
  simp only [step] at next
  split at next
  · cases next
  · rename_i acceptor runs
    split at next
    · cases next
    · rename_i off
      cases next
      have keeps := @acceptor_keeps K S _ registry s inv (some acceptor) [(key, .loggedOut)]
        (running_tasks inv runs)
      rw [← runs] at keeps
      refine keeps ?_ ?_
      · rintro other ⟨held, is, on⟩
        cases runs.symm.trans is
        exact held_registered inv runs on
      · intro other
        by_cases same : key = other
        · subst same
          simp [runs, off]
        · simp [same, runs, on_iff runs other]

theorem disconnect_keeps {registry : Registry K S} {s t : FixSessions K S} {key : K}
    (inv : Inv registry s) (next : step registry s (.disconnect key) = some t) :
    Inv registry t := by
  simp only [step] at next
  split at next
  · cases next
  · rename_i acceptor runs
    split at next
    · rename_i on
      cases next
      refine acceptor_keeps inv (running_tasks inv runs) ?_ ?_
      · rintro other ⟨_, ⟨⟩, stays | checked⟩
        · exact held_registered inv runs (Or.inl (List.mem_filter.mp stays).1)
        · exact held_registered inv runs (Or.inr checked)
      · intro other
        by_cases same : key = other
        · simp [same]
        · simp [same, Ne.symm same, on_iff runs other]
    · cases next

theorem step_keeps {registry : Registry K S} {s t : FixSessions K S} {a : Action K}
    (inv : Inv registry s) (ok : ¬ Overtakes s a) (next : step registry s a = some t) :
    Inv registry t := by
  cases a with
  | start => exact start_keeps inv next
  | stop => exact stop_keeps inv next
  | check key => exact check_keeps inv next
  | logon key => exact logon_keeps inv next
  | abandon key => exact abandon_keeps inv next
  | refuse key => exact refuse_keeps inv next
  | disconnect key => exact disconnect_keeps inv next
  | take i => exact take_keeps inv ok next
  | finish i => exact finish_keeps inv next

omit [DecidableEq S] in
theorem inv_truthful {registry : Registry K S} {s : FixSessions K S} (inv : Inv registry s) :
    Truthful registry s := by
  intro handled code
  have whole : ∀ code, ∀ task ∈ s.tasks, task.half ≠ some code := by
    intro code task member mid
    obtain ⟨i, found⟩ := List.mem_iff_getElem?.mp member
    obtain ⟨key, event, rest, queue, _⟩ := inv.halves i task code found mid
    cases queue.symm.trans (handled task member)
  have agrees : ∀ key, registry.byCompIds key = some code →
      s.live code = decide (LoggedOn s key) := by
    intro key registered
    have told := inv.told key code registered
    have quiet : Quiet s.tasks key := fun task member => by simp [handled task member]
    rw [quiet_pending quiet, after_nil] at told
    exact (inv.settled key code registered (whole code)).trans told
  constructor
  · intro isLive
    obtain ⟨key, registered⟩ := inv.known code isLive
    exact ⟨key, registered, by simpa [isLive] using agrees key registered⟩
  · rintro ⟨key, registered, on⟩
    simpa [on] using agrees key registered

/-- As long as a session's events are handled in the order its acceptors came, the
    live strategies are those logged on. -/
theorem live_is_truthful (registry : Registry K S) (as : List (Action K))
    (steps : Along (step registry) (fun s a => ¬ Overtakes s a) .start as) :
    Throughout (step registry) (Truthful registry) .start as :=
  throughout_mono (fun _ => inv_truthful)
    (throughout_along (fun _ _ _ inv ok next => step_keeps inv ok next) (start_inv registry) steps)

def xarb : Registry String String where
  byCompIds key := if key = "XARB1" then some "xarb" else none
  sessionKey _ := "XARB1"
  owned := by
    intro key code found
    split at found
    · rename_i own
      exact own.symm
    · cases found

def handle (i : Nat) : List (Action String) := [.take i, .finish i]

/-- A refused logon, a session lost and back, a restart and the session once more. -/
def restarted : List (Action String) :=
  [.start, .refuse "XARB1", .check "XARB1", .logon "XARB1", .take 0] ++ handle 0 ++
    [.disconnect "XARB1"] ++ handle 0 ++ [.check "XARB1", .logon "XARB1"] ++ handle 0 ++
    [.stop, .start] ++ handle 1 ++ [.check "XARB1", .logon "XARB1"] ++ handle 0

theorem restarted_truthful : Throughout (step xarb) (Truthful xarb) .start restarted :=
  live_is_truthful xarb restarted (by decide)

/-- The logon to the new acceptor is handled before both events of the old one. -/
def overtaken : List (Action String) :=
  [.start, .check "XARB1", .logon "XARB1", .stop, .start, .check "XARB1", .logon "XARB1"] ++
    handle 0 ++ handle 1 ++ handle 1

/-- The old acceptor's logout takes the new session's strategy out. -/
theorem logged_on_and_not_live : ¬ Throughout (step xarb) (Truthful xarb) .start overtaken := by
  intro truthful
  obtain ⟨t, ends, handled, on, dead⟩ : ∃ t ∈ run (step xarb) .start overtaken,
      (∀ task ∈ t.tasks, task.queue = []) ∧ LoggedOn t "XARB1" ∧ t.live "xarb" = false :=
    ⟨_, rfl, by decide, by decide, by decide⟩
  have live := (throughout_end truthful t ends handled "xarb").mpr ⟨"XARB1", rfl, on⟩
  exact absurd live (by simp [dead])

end OmsFixSessions
