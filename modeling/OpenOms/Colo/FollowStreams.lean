import OpenOms.Library.Runs
import Mathlib.Logic.Function.Basic

/-!
The follow streams of the co-located strategies, brought in line with the registry after
each of its writes. One call at a time holds the lock; it waits for the end of a task it has
stopped, and is gone if whoever asked for it hangs up meanwhile.
-/
namespace OmsFollowStreams
open Runs

structure FollowKey where
  environment : String
  sealed_ : String
  deriving DecidableEq, Repr

abbrev Wanted := List (String × FollowKey)

structure FollowPlan where
  start : List String
  stop : List String
  deriving DecidableEq, Repr

inductive Phase where
  | running
  | aborting
  | ended
  deriving DecidableEq, Repr

structure Task where
  code : String
  key : FollowKey
  phase : Phase
  deriving DecidableEq, Repr

structure Work where
  wanted : Wanted
  plan : FollowPlan
  opened : Bool
  deriving DecidableEq, Repr

inductive Stage where
  | querying
  | working (w : Work)
  | stopping (w : Work) (code : String) (old : Nat)
  | spawned (w : Work) (code : String) (id : Nat)
  -- waits for the end of the old task, the new one in no registry yet
  | joining (w : Work) (code : String) (id old : Nat)
  deriving DecidableEq, Repr

/-- Tasks by the order they were spawned in. `left` are the tasks in the hands of abandoned
    calls, `before` the streams there were when the last call made its plan, and `served`
    what it wanted, if it got through. -/
structure Streams where
  rows : Wanted
  running : List (String × Nat)
  handles : String → Option Nat
  adapters : String → Option FollowKey
  tasks : List Task
  stage : Option Stage
  abandoned : Bool
  left : List Nat
  before : String → Option Nat
  served : Option Wanted

def Streams.start (rows : Wanted) : Streams :=
  ⟨rows, [], fun _ => none, fun _ => none, [], none, false, [], fun _ => none, none⟩

inductive Action where
  | write (rows : Wanted)
  | lock
  | query (answered : Bool)
  | stop (code : String)
  | resolveMasterKey (found : Bool)
  | spawn (code : String)
  | abort
  | resume
  | finish
  | die (id : Nat)
  | abandon
  deriving DecidableEq, Repr

-- the hash a key is known by, and whether it opens and can sign
variable (fingerprint : FollowKey → Nat) (usable : String → FollowKey → Bool)

def followPlan (running : List (String × Nat)) (wanted : Wanted) : FollowPlan where
  start := (wanted.map Prod.fst).filter fun code =>
    running.lookup code ≠ (wanted.lookup code).map fingerprint
  stop := (running.map Prod.fst).filter fun code => (wanted.lookup code).isNone

def without (m : List (String × Nat)) (code : String) : List (String × Nat) :=
  m.filter (·.1 ≠ code)

def put (m : List (String × Nat)) (code : String) (f : Nat) : List (String × Nat) :=
  (code, f) :: without m code

def setPhase (tasks : List Task) (id : Nat) (phase : Phase) : List Task :=
  tasks.modify id fun t => { t with phase }

def abort (s : Streams) (code : String) (id : Nat) : Streams :=
  { s with tasks := setPhase s.tasks id .aborting, handles := Function.update s.handles code none }

def Work.stopped (w : Work) (code : String) : Work :=
  { w with plan := { w.plan with stop := w.plan.stop.filter (· ≠ code) } }

def Work.started (w : Work) (code : String) : Work :=
  { w with plan := { w.plan with start := w.plan.start.filter (· ≠ code) } }

def forget (s : Streams) (code : String) : Streams :=
  { s with
    adapters := Function.update s.adapters code none
    running := without s.running code }

def registerTask (s : Streams) (code : String) (id : Nat) (key : FollowKey) : Streams :=
  { s with
    handles := Function.update s.handles code (some id)
    running := put s.running code (fingerprint key) }

def spawnTask (s : Streams) (code : String) (key : FollowKey) : Streams :=
  { s with
    tasks := s.tasks ++ [⟨code, key, .running⟩]
    adapters := Function.update s.adapters code (some key) }

def hasEnded (s : Streams) (id : Nat) : Bool := s.tasks[id]?.any (·.phase = .ended)

def step (s : Streams) : Action → Option Streams
  | .write rows => some { s with rows }
  | .lock =>
    match s.stage with
    | none => some { s with stage := some .querying, served := none }
    | some _ => none
  | .query answered =>
    match s.stage with
    | some .querying =>
      if answered then
        some { s with
          stage := some (.working ⟨s.rows, followPlan fingerprint s.running s.rows, false⟩)
          before := s.handles }
      else some { s with stage := none }
    | _ => none
  | .stop code =>
    match s.stage with
    | some (.working w) =>
      if code ∈ w.plan.stop then
        match s.handles code with
        | some old => some { abort s code old with stage := some (.stopping (w.stopped code) code old) }
        | none => some { forget s code with stage := some (.working (w.stopped code)) }
      else none
    | _ => none
  | .resolveMasterKey found =>
    match s.stage with
    | some (.working w) =>
      if w.plan.stop = [] ∧ w.plan.start ≠ [] ∧ w.opened = false then
        if found then some { s with stage := some (.working { w with opened := true }) }
        else some { s with stage := none }
      else none
    | _ => none
  | .spawn code =>
    match s.stage with
    | some (.working w) =>
      if w.plan.stop = [] ∧ w.opened ∧ code ∈ w.plan.start then
        (w.wanted.lookup code).map fun key =>
          if usable code key then
            { spawnTask s code key with
              stage := some (.spawned (w.started code) code s.tasks.length) }
          else { s with stage := some (.working (w.started code)) }
      else none
    | _ => none
  | .abort =>
    match s.stage with
    | some (.spawned w code id) =>
      match s.handles code with
      | some old => some { abort s code old with stage := some (.joining w code id old) }
      | none =>
        (w.wanted.lookup code).map fun key =>
          { registerTask fingerprint s code id key with stage := some (.working w) }
    | _ => none
  | .resume =>
    match s.stage with
    | some (.stopping w code old) =>
      if hasEnded s old then some { forget s code with stage := some (.working w) } else none
    | some (.joining w code id old) =>
      if hasEnded s old then
        (w.wanted.lookup code).map fun key =>
          { registerTask fingerprint s code id key with stage := some (.working w) }
      else none
    | _ => none
  | .finish =>
    match s.stage with
    | some (.working w) =>
      if w.plan.stop = [] ∧ w.plan.start = [] then
        some { s with stage := none, served := some w.wanted }
      else none
    | _ => none
  | .die id =>
    if s.tasks[id]?.any (·.phase = .aborting) then
      some { s with tasks := setPhase s.tasks id .ended }
    else none
  | .abandon =>
    match s.stage with
    | some .querying => some { s with stage := none }
    | some (.stopping _ _ old) =>
      some { s with stage := none, abandoned := true, left := old :: s.left }
    | some (.joining _ _ id old) =>
      some { s with stage := none, abandoned := true, left := id :: old :: s.left }
    | _ => none

def Stage.busy : Stage → Option String
  | .stopping _ code _ => some code
  | .spawned _ code _ => some code
  | .joining _ code _ _ => some code
  | _ => none

def Stage.hand : Stage → List Nat
  | .stopping _ _ old => [old]
  | .spawned _ _ id => [id]
  | .joining _ _ id old => [id, old]
  | _ => []

def Stage.fresh : Stage → Option (String × Nat)
  | .spawned _ code id => some (code, id)
  | .joining _ code id _ => some (code, id)
  | _ => none

def Stage.work : Stage → Option Work
  | .querying => none
  | .working w => some w
  | .stopping w _ _ => some w
  | .spawned w _ _ => some w
  | .joining w _ _ _ => some w

def Aligned (s : Streams) (code : String) : Prop :=
  match s.handles code with
  | none => s.running.lookup code = none ∧ s.adapters code = none
  | some id => ∃ key, s.tasks[id]? = some ⟨code, key, .running⟩ ∧
      s.running.lookup code = some (fingerprint key) ∧ s.adapters code = some key

def Accounted (s : Streams) (code : String) (id : Nat) : Prop :=
  s.handles code = some id ∨ (∃ stage ∈ s.stage, stage.busy = some code ∧ id ∈ stage.hand) ∨
    id ∈ s.left

/-- The strategy's account is followed as the registry had it, by no stream at all if not
    wanted, and by the one it had if its key is unusable. -/
def Serves (s : Streams) (wanted : Wanted) (code : String) : Prop :=
  match wanted.lookup code with
  | none => ∀ (id : Nat) t, s.tasks[id]? = some t → t.code = code → t.phase = .ended
  | some key =>
    if usable code key then
      ∃ id key', s.handles code = some id ∧ s.tasks[id]? = some ⟨code, key', .running⟩ ∧
        fingerprint key' = fingerprint key
    else s.handles code = s.before code

/-- Every stream that has not ended is accounted for; and without abandoned calls two of one
    account are an old one and the one a call replaces it by, and all agree whenever no
    call is under way. -/
structure Followed (s : Streams) : Prop where
  registered : ∀ code, ∀ id ∈ s.handles code, ∃ key, s.tasks[id]? = some ⟨code, key, .running⟩
  accounted : ∀ (id : Nat) t, s.tasks[id]? = some t → t.phase ≠ .ended → Accounted s t.code id
  once : s.abandoned = false → ∀ (i j : Nat) t u, s.tasks[i]? = some t → s.tasks[j]? = some u →
    t.code = u.code → t.phase ≠ .ended → u.phase ≠ .ended →
    i = j ∨ ∃ stage ∈ s.stage, stage.fresh = some (t.code, i) ∨ stage.fresh = some (t.code, j)
  aligned : s.abandoned = false → s.stage = none → ∀ code, Aligned fingerprint s code
  served : s.abandoned = false → s.stage = none → ∀ wanted ∈ s.served, ∀ code,
    Serves fingerprint usable s wanted code

def Streams.work (s : Streams) : Option Work := s.stage.bind Stage.work

def Idle (s : Streams) (code : String) : Prop := ∀ stage ∈ s.stage, stage.busy ≠ some code

def Planned (s : Streams) (w : Work) (code : String) : Prop :=
  match w.wanted.lookup code with
  | none => code ∉ w.plan.stop → s.running.lookup code = none
  | some key =>
    if usable code key then
      code ∉ w.plan.start → s.running.lookup code = some (fingerprint key)
    else s.handles code = s.before code

structure Around (s : Streams) (code : String) : Prop where
  registered : ∀ id ∈ s.handles code, ∃ key, s.tasks[id]? = some ⟨code, key, .running⟩
  accounted : ∀ (id : Nat) t, s.tasks[id]? = some t → t.code = code → t.phase ≠ .ended →
    Accounted s code id
  aligned : s.abandoned = false → Idle s code → Aligned fingerprint s code
  planned : s.abandoned = false → Idle s code → ∀ w ∈ s.work, Planned fingerprint usable s w code

def Begun (s : Streams) (w : Work) (code : String) (id : Nat) : Prop :=
  ∃ key, w.wanted.lookup code = some key ∧ usable code key = true ∧
    s.tasks[id]? = some ⟨code, key, .running⟩ ∧ s.adapters code = some key

def Stands (s : Streams) : Stage → Prop
  | .querying | .working _ => True
  | .stopping w code _ => s.handles code = none ∧ w.wanted.lookup code = none
  | .spawned w code id => s.handles code ≠ some id ∧ Begun usable s w code id
  | .joining w code id _ => s.handles code = none ∧ Begun usable s w code id

structure Inv (s : Streams) : Prop where
  around : ∀ code, Around fingerprint usable s code
  stands : ∀ stage ∈ s.stage, Stands usable s stage
  kept : s.abandoned = false → s.left = []
  unwanted : ∀ w ∈ s.work, ∀ code ∈ w.plan.stop, w.wanted.lookup code = none
  served : s.abandoned = false → s.stage = none → ∀ wanted ∈ s.served, ∀ code,
    Serves fingerprint usable s wanted code
  unserved : ∀ stage, s.stage = some stage → s.served = none

variable {fingerprint : FollowKey → Nat} {usable : String → FollowKey → Bool}

theorem lookup_without (m : List (String × Nat)) (code code' : String) :
    (without m code).lookup code' = if code' = code then none else m.lookup code' := by
  induction m with
  | nil => simp [without]
  | cons pair m ih =>
    obtain ⟨c, f⟩ := pair
    simp only [without, List.filter_cons] at ih ⊢
    by_cases same : c = code
    · subst same
      simp only [ne_eq, not_true_eq_false, decide_false, Bool.false_eq_true, if_false, ih]
      by_cases own : code' = c
      · simp [own]
      · simp [own, List.lookup_cons, beq_eq_false_iff_ne.mpr own]
    · simp only [ne_eq, same, not_false_eq_true, decide_true, if_true, List.lookup_cons, ih]
      by_cases own : code' = c
      · simp [own, same]
      · simp [beq_eq_false_iff_ne.mpr own]

theorem lookup_put (m : List (String × Nat)) (code : String) (f : Nat) (code' : String) :
    (put m code f).lookup code' = if code' = code then some f else m.lookup code' := by
  rw [put, List.lookup_cons]
  by_cases same : code' = code
  · simp [same]
  · simp [same, beq_eq_false_iff_ne.mpr same, lookup_without]

theorem set_phase_other {tasks : List Task} {id i : Nat} (phase : Phase) (other : i ≠ id) :
    (setPhase tasks id phase)[i]? = tasks[i]? := by
  rw [setPhase, List.getElem?_modify]
  simp [Ne.symm other]

theorem set_phase_self {tasks : List Task} {id : Nat} (phase : Phase) :
    (setPhase tasks id phase)[id]? = tasks[id]?.map fun t => { t with phase } := by
  rw [setPhase, List.getElem?_modify]
  simp

theorem spawned_at {tasks : List Task} {task u : Task} {i : Nat}
    (there : (tasks ++ [task])[i]? = some u) : tasks[i]? = some u ∨ i = tasks.length ∧ u = task := by
  rcases Nat.lt_or_ge i tasks.length with before | after
  · rw [List.getElem?_append_left before] at there
    exact Or.inl there
  · rw [List.getElem?_append_right after] at there
    obtain ⟨last, same⟩ := List.getElem?_eq_some_iff.mp there
    have here : i = tasks.length := by
      rw [List.length_singleton] at last
      omega
    subst here
    exact Or.inr ⟨rfl, by simpa using same.symm⟩

theorem spawned_before {tasks : List Task} {u : Task} {i : Nat} (task : Task)
    (there : tasks[i]? = some u) : (tasks ++ [task])[i]? = some u := by
  rw [List.getElem?_append_left (List.getElem?_eq_some_iff.mp there).1, there]

structure Untouched (s t : Streams) (code : String) : Prop where
  handles : t.handles code = s.handles code
  running : t.running.lookup code = s.running.lookup code
  adapters : t.adapters code = s.adapters code
  before : t.before code = s.before code
  runs : ∀ (id : Nat) key, s.tasks[id]? = some ⟨code, key, .running⟩ →
    t.tasks[id]? = some ⟨code, key, .running⟩
  lives : ∀ (id : Nat) u, t.tasks[id]? = some u → u.code = code → u.phase ≠ .ended →
    s.tasks[id]? = some u

structure Keeps (code : String) (w w' : Work) : Prop where
  wanted : w'.wanted = w.wanted
  stop : code ∈ w.plan.stop → code ∈ w'.plan.stop
  start : code ∈ w.plan.start → code ∈ w'.plan.start

theorem keeps_same (code : String) (w : Work) : Keeps code w w := ⟨rfl, id, id⟩

theorem keeps_stopped {code other : String} (away : other ≠ code) (w : Work) :
    Keeps other w (w.stopped code) :=
  ⟨rfl, fun member => List.mem_filter.mpr ⟨member, by simpa using away⟩, id⟩

theorem keeps_started {code other : String} (away : other ≠ code) (w : Work) :
    Keeps other w (w.started code) :=
  ⟨rfl, id, fun member => List.mem_filter.mpr ⟨member, by simpa using away⟩⟩

theorem aligned_untouched {s t : Streams} {code : String} (same : Untouched s t code)
    (aligned : Aligned fingerprint s code) : Aligned fingerprint t code := by
  unfold Aligned at aligned ⊢
  rw [same.handles, same.running, same.adapters]
  cases there : s.handles code with
  | none =>
    rw [there] at aligned
    exact aligned
  | some id =>
    rw [there] at aligned
    obtain ⟨key, task, known, adapter⟩ := aligned
    exact ⟨key, same.runs id key task, known, adapter⟩

theorem planned_untouched {s t : Streams} {code : String} (same : Untouched s t code) {w w' : Work}
    (keeps : Keeps code w w') (planned : Planned fingerprint usable s w code) :
    Planned fingerprint usable t w' code := by
  unfold Planned at planned ⊢
  rw [same.handles, same.running, same.before, keeps.wanted]
  split
  · rename_i unwanted
    rw [unwanted] at planned
    exact fun off => planned fun on => off (keeps.stop on)
  · rename_i key wanted
    rw [wanted] at planned
    dsimp only at planned
    split
    · rename_i opens
      rw [if_pos opens] at planned
      exact fun off => planned fun on => off (keeps.start on)
    · rename_i useless
      rw [if_neg useless] at planned
      exact planned

theorem around_untouched {s t : Streams} {code : String} (around : Around fingerprint usable s code)
    (same : Untouched s t code) (still : t.abandoned = s.abandoned)
    (accounts : ∀ id, Accounted s code id → Accounted t code id)
    (idle : Idle t code → Idle s code) (work : ∀ w' ∈ t.work, ∃ w ∈ s.work, Keeps code w w') :
    Around fingerprint usable t code where
  registered := by
    intro id there
    rw [same.handles] at there
    obtain ⟨key, task⟩ := around.registered id there
    exact ⟨key, same.runs id key task⟩
  accounted id u there own alive :=
    accounts id (around.accounted id u (same.lives id u there own alive) own alive)
  aligned := by
    intro still' free
    rw [still] at still'
    exact aligned_untouched same (around.aligned still' (idle free))
  planned := by
    intro still' free w' of_
    rw [still] at still'
    obtain ⟨w, before, keeps⟩ := work w' of_
    exact planned_untouched same keeps (around.planned still' (idle free) w before)

theorem idle_at {s : Streams} {stage : Stage} {code : String} (at_ : s.stage = some stage)
    (busy : stage.busy ≠ some code) : Idle s code := by
  intro stage' here
  cases at_.symm.trans here
  exact busy

theorem work_at {s : Streams} {stage : Stage} {w : Work} (at_ : s.stage = some stage)
    (of_ : stage.work = some w) : w ∈ s.work := by
  rw [Streams.work, at_]
  exact of_

theorem accounted_idle {s t : Streams} {code : String} (idle : Idle s code)
    (handles : t.handles code = s.handles code) (left : t.left = s.left) (id : Nat)
    (accounted : Accounted s code id) : Accounted t code id := by
  rcases accounted with handle | ⟨stage, here, busy, _⟩ | lost
  · exact Or.inl (handles.trans handle)
  · exact absurd busy (idle stage here)
  · exact Or.inr (Or.inr (left ▸ lost))

theorem around_other {s t : Streams} {code : String} (around : Around fingerprint usable s code)
    (idle : Idle s code) (same : Untouched s t code) (still : t.abandoned = s.abandoned)
    (left : t.left = s.left) (work : ∀ w' ∈ t.work, ∃ w ∈ s.work, Keeps code w w') :
    Around fingerprint usable t code :=
  around_untouched around same still (accounted_idle idle same.handles left) (fun _ => idle) work

theorem update_other {A : Type} {m : String → A} {code code' : String} (other : code' ≠ code)
    (a : A) : Function.update m code a code' = m code' :=
  Function.update_of_ne other a m

theorem abort_untouched {s : Streams} {code other : String} {old : Nat} {key : FollowKey}
    (away : other ≠ code) (task : s.tasks[old]? = some ⟨code, key, .running⟩)
    (next : Option Stage) : Untouched s { abort s code old with stage := next } other where
  handles := update_other away _
  running := rfl
  adapters := rfl
  before := rfl
  runs := by
    intro id key' there
    have apart : id ≠ old := by
      rintro rfl
      cases there.symm.trans task
      exact away rfl
    exact (set_phase_other .aborting apart).trans there
  lives := by
    intro id u there own _
    have apart : id ≠ old := by
      rintro rfl
      simp only [abort, set_phase_self, task, Option.map_some, Option.some.injEq] at there
      subst there
      exact away own.symm
    exact (set_phase_other .aborting apart).symm.trans there

theorem forget_untouched {s : Streams} {code other : String} (away : other ≠ code)
    (next : Option Stage) : Untouched s { forget s code with stage := next } other where
  handles := rfl
  running := by simp [forget, lookup_without, away]
  adapters := update_other away _
  before := rfl
  runs _ _ there := there
  lives _ _ there _ _ := there

theorem spawn_untouched {s : Streams} {code other : String} (away : other ≠ code) (key : FollowKey)
    (next : Option Stage) : Untouched s { spawnTask s code key with stage := next } other where
  handles := rfl
  running := rfl
  adapters := update_other away _
  before := rfl
  runs _ _ there := spawned_before _ there
  lives := by
    intro id u there own _
    rcases spawned_at there with before | ⟨_, rfl⟩
    · exact before
    · exact absurd own.symm away

theorem register_untouched {s : Streams} {code other : String} (away : other ≠ code) (id : Nat)
    (key : FollowKey) (next : Option Stage) :
    Untouched s { registerTask fingerprint s code id key with stage := next } other where
  handles := update_other away _
  running := by simp [registerTask, lookup_put, away]
  adapters := rfl
  before := rfl
  runs _ _ there := there
  lives _ _ there _ _ := there

theorem stage_inv {s : Streams} (inv : Inv fingerprint usable s)
    (idle : ∀ code, Idle s code) {stage : Stage} (busy : stage.busy = none) (w' : Work)
    (of_ : stage.work = some w') (before : String → Option Nat)
    (planned : s.abandoned = false → ∀ code,
      Planned fingerprint usable { s with stage := some stage, before } w' code)
    (unwanted : ∀ code ∈ w'.plan.stop, w'.wanted.lookup code = none)
    (unserved : s.served = none) :
    Inv fingerprint usable { s with stage := some stage, before } where
  around code :=
    { registered := (inv.around code).registered
      accounted := by
        intro id t there own alive
        have held := (inv.around code).accounted id t there own alive
        refine accounted_idle (idle code) ?_ ?_ id held <;> rfl
      aligned := fun still _ => (inv.around code).aligned still (idle code)
      planned := by
        intro still _ w here
        cases here.symm.trans of_
        exact planned still code }
  stands := by
    intro stage' here
    cases here
    cases stage <;> trivial
  kept := inv.kept
  unwanted := by
    intro w here
    cases here.symm.trans of_
    exact unwanted
  served := by
    intro _ free
    cases free
  unserved _ _ := unserved

theorem end_inv {s : Streams} (inv : Inv fingerprint usable s) (idle : ∀ code, Idle s code)
    (last : Option Wanted)
    (served : s.abandoned = false → ∀ wanted ∈ last, ∀ code,
      Serves fingerprint usable { s with stage := none, served := last } wanted code) :
    Inv fingerprint usable { s with stage := none, served := last } where
  around code :=
    { registered := (inv.around code).registered
      accounted := by
        intro id t there own alive
        have held := (inv.around code).accounted id t there own alive
        refine accounted_idle (idle code) ?_ ?_ id held <;> rfl
      aligned := fun still _ => (inv.around code).aligned still (idle code)
      planned := by
        intro _ _ w here
        cases here }
  stands := by
    intro stage here
    cases here
  kept := inv.kept
  unwanted := by
    intro w here
    cases here
  served still _ := served still
  unserved := by
    intro stage here
    cases here

theorem none_working {s : Streams} {w : Work} (at_ : s.stage = some (.working w)) (code : String) :
    Idle s code :=
  idle_at at_ nofun

theorem stop_inv {s : Streams} (inv : Inv fingerprint usable s) {w : Work}
    (at_ : s.stage = some (.working w)) {code : String} (planned : code ∈ w.plan.stop) {old : Nat}
    (there : s.handles code = some old) :
    Inv fingerprint usable
      { abort s code old with stage := some (.stopping (w.stopped code) code old) } where
  around other := by
    obtain ⟨key, task⟩ := (inv.around code).registered old there
    by_cases same : other = code
    · subst same
      refine ⟨?_, ?_, ?_, ?_⟩
      · intro id handle
        simp [abort] at handle
      · intro id t here own alive
        by_cases ended : id = old
        · subst ended
          exact Or.inr (Or.inl ⟨_, rfl, rfl, List.mem_singleton_self _⟩)
        · have here' := (set_phase_other .aborting ended).symm.trans here
          rcases (inv.around other).accounted id t here' own alive with handle | ⟨_, at_', _, held⟩ | lost
          · exact absurd (Option.some.inj (handle.symm.trans there)) ended
          · cases at_.symm.trans at_'
            cases held
          · exact Or.inr (Or.inr lost)
      · exact fun _ idle => absurd rfl (idle _ rfl)
      · exact fun _ idle => absurd rfl (idle _ rfl)
    · refine around_other (inv.around other) (none_working at_ other)
        (abort_untouched same task _) rfl rfl ?_
      intro w' here
      cases here
      exact ⟨w, work_at at_ rfl, keeps_stopped same w⟩
  stands := by
    intro stage here
    cases here
    exact ⟨Function.update_self .., inv.unwanted w (work_at at_ rfl) code planned⟩
  kept := inv.kept
  unwanted := by
    intro w' here other on
    cases here
    exact inv.unwanted w (work_at at_ rfl) other (List.mem_filter.mp on).1
  served := by
    intro _ free
    cases free
  unserved _ _ := inv.unserved _ at_

theorem forget_inv {s : Streams} (inv : Inv fingerprint usable s) {stage : Stage}
    (at_ : s.stage = some stage) {code : String} (none_ : s.handles code = none)
    (busy : ∀ other, other ≠ code → stage.busy ≠ some other)
    (over_ : ∀ id ∈ stage.hand, ∀ t, s.tasks[id]? = some t → t.phase = .ended) {w w' : Work}
    (of_ : stage.work = some w) (keeps : ∀ other, other ≠ code → Keeps other w w')
    (stop : ∀ other ∈ w'.plan.stop, other ∈ w.plan.stop) (wanted : w'.wanted = w.wanted)
    (unwanted : w.wanted.lookup code = none) :
    Inv fingerprint usable { forget s code with stage := some (.working w') } where
  around other := by
    by_cases same : other = code
    · subst same
      refine ⟨(inv.around other).registered, ?_, ?_, ?_⟩
      · intro id t here own alive
        rcases (inv.around other).accounted id t here own alive with handle | ⟨_, at_', _, held⟩ | lost
        · exact Or.inl handle
        · cases at_.symm.trans at_'
          exact absurd (over_ id held t here) alive
        · exact Or.inr (Or.inr lost)
      · intro _ _
        simp [Aligned, forget, none_, lookup_without]
      · intro _ _ w'' here
        cases here
        unfold Planned
        rw [wanted, unwanted]
        intro _
        simp [forget, lookup_without]
    · refine around_other (inv.around other) (idle_at at_ (busy other same))
        (forget_untouched same _) rfl rfl ?_
      intro w'' here
      cases here
      exact ⟨w, work_at at_ of_, keeps other same⟩
  stands := by
    intro stage here
    cases here
    trivial
  kept := inv.kept
  unwanted := by
    intro w'' here other on
    cases here
    rw [wanted]
    exact inv.unwanted w (work_at at_ of_) other (stop other on)
  served := by
    intro _ free
    cases free
  unserved _ _ := inv.unserved _ at_

theorem spawn_inv {s : Streams} (inv : Inv fingerprint usable s) {w : Work}
    (at_ : s.stage = some (.working w)) {code : String} {key : FollowKey}
    (wanted : w.wanted.lookup code = some key) (opens : usable code key = true) :
    Inv fingerprint usable
      { spawnTask s code key with stage := some (.spawned (w.started code) code s.tasks.length) } where
  around other := by
    by_cases same : other = code
    · subst same
      refine ⟨?_, ?_, ?_, ?_⟩
      · intro id handle
        obtain ⟨key', task⟩ := (inv.around other).registered id handle
        exact ⟨key', spawned_before _ task⟩
      · intro id t here own alive
        rcases spawned_at here with before | ⟨rfl, _⟩
        · rcases (inv.around other).accounted id t before own alive with handle | ⟨_, at_', _, held⟩ | lost
          · exact Or.inl handle
          · cases at_.symm.trans at_'
            cases held
          · exact Or.inr (Or.inr lost)
        · exact Or.inr (Or.inl ⟨_, rfl, rfl, List.mem_singleton_self _⟩)
      · exact fun _ idle => absurd rfl (idle _ rfl)
      · exact fun _ idle => absurd rfl (idle _ rfl)
    · refine around_other (inv.around other) (none_working at_ other) (spawn_untouched same key _)
        rfl rfl ?_
      intro w' here
      cases here
      exact ⟨w, work_at at_ rfl, keeps_started same w⟩
  stands := by
    intro stage here
    cases here
    refine ⟨?_, key, wanted, opens, ?_, Function.update_self ..⟩
    · intro handle
      obtain ⟨_, task⟩ := (inv.around code).registered _ handle
      exact Nat.lt_irrefl _ (List.getElem?_eq_some_iff.mp task).1
    · simp [spawnTask]
  kept := inv.kept
  unwanted := by
    intro w' here
    cases here
    exact inv.unwanted w (work_at at_ rfl)
  served := by
    intro _ free
    cases free
  unserved _ _ := inv.unserved _ at_

theorem abort_inv {s : Streams} (inv : Inv fingerprint usable s) {w : Work} {code : String}
    {id old : Nat} (at_ : s.stage = some (.spawned w code id)) (there : s.handles code = some old) :
    Inv fingerprint usable { abort s code old with stage := some (.joining w code id old) } where
  around other := by
    obtain ⟨key, task⟩ := (inv.around code).registered old there
    by_cases same : other = code
    · subst same
      refine ⟨?_, ?_, ?_, ?_⟩
      · intro i handle
        simp [abort] at handle
      · intro i t here own alive
        by_cases ended : i = old
        · exact Or.inr (Or.inl ⟨_, rfl, rfl, by simp [Stage.hand, ended]⟩)
        · have here' := (set_phase_other .aborting ended).symm.trans here
          rcases (inv.around other).accounted i t here' own alive with handle | ⟨_, at_', _, held⟩ | lost
          · exact absurd (Option.some.inj (handle.symm.trans there)) ended
          · cases at_.symm.trans at_'
            rw [List.mem_singleton.mp held]
            exact Or.inr (Or.inl ⟨_, rfl, rfl, List.mem_cons_self⟩)
          · exact Or.inr (Or.inr lost)
      · exact fun _ idle => absurd rfl (idle _ rfl)
      · exact fun _ idle => absurd rfl (idle _ rfl)
    · have idle : Idle s other := idle_at at_ fun busy => same (Option.some.inj busy).symm
      refine around_other (inv.around other) idle (abort_untouched same task _) rfl rfl ?_
      intro w' here
      cases here
      exact ⟨w, work_at at_ rfl, keeps_same other w⟩
  stands := by
    intro stage here
    cases here
    obtain ⟨own, key, wanted, opens, task, adapter⟩ := inv.stands _ at_
    refine ⟨Function.update_self .., key, wanted, opens, ?_, adapter⟩
    have apart : id ≠ old := by
      rintro rfl
      exact own there
    exact (set_phase_other .aborting apart).trans task
  kept := inv.kept
  unwanted := by
    intro w' here
    cases here
    exact inv.unwanted w (work_at at_ rfl)
  served := by
    intro _ free
    cases free
  unserved _ _ := inv.unserved _ at_

theorem register_inv {s : Streams} (inv : Inv fingerprint usable s) {stage : Stage} {w : Work}
    {code : String} {id : Nat} (at_ : s.stage = some stage) (busy : stage.busy = some code)
    (of_ : stage.work = some w) (none_ : s.handles code = none)
    (hand : ∀ i ∈ stage.hand, i = id ∨ ∀ t, s.tasks[i]? = some t → t.phase = .ended)
    (begun : Begun usable s w code id) {key : FollowKey} (wanted : w.wanted.lookup code = some key) :
    Inv fingerprint usable
      { registerTask fingerprint s code id key with stage := some (.working w) } where
  around other := by
    obtain ⟨key', wanted', opens, task, adapter⟩ := begun
    cases wanted.symm.trans wanted'
    by_cases same : other = code
    · subst same
      refine ⟨?_, ?_, ?_, ?_⟩
      · intro i handle
        simp only [registerTask, Function.update_self, Option.mem_some_iff] at handle
        exact ⟨key, handle ▸ task⟩
      · intro i t here own alive
        rcases (inv.around other).accounted i t here own alive with handle | ⟨_, at_', _, held⟩ | lost
        · rw [none_] at handle
          cases handle
        · cases at_.symm.trans at_'
          rcases hand i held with rfl | ended
          · exact Or.inl (Function.update_self ..)
          · exact absurd (ended t here) alive
        · exact Or.inr (Or.inr lost)
      · intro _ _
        simp only [Aligned, registerTask, Function.update_self]
        exact ⟨key, task, by simp [lookup_put], adapter⟩
      · intro _ _ w' here
        cases here
        unfold Planned
        rw [wanted]
        simp [opens, registerTask, lookup_put]
    · have idle : Idle s other := by
        refine idle_at at_ fun own => same ?_
        exact (Option.some.inj (own.symm.trans busy))
      refine around_other (inv.around other) idle (register_untouched same id key _) rfl rfl ?_
      intro w' here
      cases here
      exact ⟨w, work_at at_ of_, keeps_same other w⟩
  stands := by
    intro stage here
    cases here
    trivial
  kept := inv.kept
  unwanted := by
    intro w' here
    cases here
    exact inv.unwanted w (work_at at_ of_)
  served := by
    intro _ free
    cases free
  unserved _ _ := inv.unserved _ at_

theorem lookup_key {A : Type} {m : List (String × A)} {code : String} {a : A}
    (there : m.lookup code = some a) : code ∈ m.map Prod.fst := by
  induction m with
  | nil => cases there
  | cons pair m ih =>
    rw [List.lookup_cons] at there
    split at there
    · rename_i same
      exact List.mem_cons.mpr (Or.inl (beq_iff_eq.mp same))
    · exact List.mem_cons_of_mem _ (ih there)

theorem plan_planned (s : Streams) (stage : Option Stage) (code : String) :
    Planned fingerprint usable { s with stage, before := s.handles }
      ⟨s.rows, followPlan fingerprint s.running s.rows, false⟩ code := by
  unfold Planned
  dsimp only
  split
  · rename_i unwanted
    intro off
    cases known : s.running.lookup code with
    | none => rfl
    | some f =>
      refine absurd (List.mem_filter.mpr ⟨lookup_key known, ?_⟩) off
      rw [unwanted]
      rfl
  · rename_i key wanted
    split
    · intro off
      by_contra other
      refine off (List.mem_filter.mpr ⟨lookup_key wanted, ?_⟩)
      simpa [wanted] using other
    · rfl

theorem none_lives {s : Streams} {code : String} (around : Around fingerprint usable s code)
    (idle : Idle s code) (kept : s.left = []) (none_ : s.handles code = none) (id : Nat) (t : Task)
    (there : s.tasks[id]? = some t) (own : t.code = code) : t.phase = .ended := by
  by_contra alive
  rcases around.accounted id t there own alive with handle | ⟨stage, here, busy, _⟩ | lost
  · rw [none_] at handle
    cases handle
  · exact idle stage here busy
  · rw [kept] at lost
    cases lost

theorem finished_serves {s : Streams} (inv : Inv fingerprint usable s)
    (still : s.abandoned = false) {w : Work} (at_ : s.stage = some (.working w))
    (stopped : w.plan.stop = []) (started : w.plan.start = []) (code : String) :
    Serves fingerprint usable s w.wanted code := by
  have idle := none_working at_ code
  have planned := (inv.around code).planned still idle w (work_at at_ rfl)
  have aligned := (inv.around code).aligned still idle
  unfold Planned at planned
  unfold Aligned at aligned
  unfold Serves
  split
  · rename_i unwanted
    rw [unwanted] at planned
    have none_ := planned (by simp [stopped])
    refine none_lives (inv.around code) idle (inv.kept still) ?_
    split at aligned
    · assumption
    · obtain ⟨key, -, known, -⟩ := aligned
      rw [none_] at known
      cases known
  · rename_i key wanted
    rw [wanted] at planned
    dsimp only at planned
    split
    · rename_i opens
      rw [if_pos opens] at planned
      have known := planned (by simp [started])
      split at aligned
      · rw [aligned.1] at known
        cases known
      · rename_i id there
        obtain ⟨key', task, known', -⟩ := aligned
        exact ⟨id, key', there, task, Option.some.inj (known'.symm.trans known)⟩
    · rename_i useless
      rw [if_neg useless] at planned
      exact planned

theorem tasks_inv {s : Streams} (inv : Inv fingerprint usable s) {tasks : List Task}
    (same : ∀ code, Untouched s { s with tasks } code) :
    Inv fingerprint usable { s with tasks } where
  around code := by
    refine around_untouched (inv.around code) (same code) rfl (fun _ => id) id ?_
    exact fun w here => ⟨w, here, keeps_same code w⟩
  stands := by
    intro stage here
    have stands := inv.stands stage here
    cases stage with
    | querying => trivial
    | working w => trivial
    | stopping w code old => exact stands
    | spawned w code id =>
      obtain ⟨own, key, wanted, opens, task, adapter⟩ := stands
      exact ⟨own, key, wanted, opens, (same code).runs id key task, adapter⟩
    | joining w code id old =>
      obtain ⟨own, key, wanted, opens, task, adapter⟩ := stands
      exact ⟨own, key, wanted, opens, (same code).runs id key task, adapter⟩
  kept := inv.kept
  unwanted := inv.unwanted
  served := by
    intro still free wanted last code
    have serves := inv.served still free wanted last code
    unfold Serves at serves ⊢
    split
    · rename_i unwanted
      rw [unwanted] at serves
      intro id t there own
      by_contra alive
      exact alive (serves id t ((same code).lives id t there own alive) own)
    · rename_i key of_
      rw [of_] at serves
      dsimp only at serves
      split
      · rename_i opens
        rw [if_pos opens] at serves
        obtain ⟨id, key', there, task, print⟩ := serves
        exact ⟨id, key', there, (same code).runs id key' task, print⟩
      · rename_i useless
        rw [if_neg useless] at serves
        exact serves
  unserved := inv.unserved

theorem die_untouched {s : Streams} {id : Nat}
    (aborting : (s.tasks[id]?.any (·.phase = .aborting)) = true) (code : String) :
    Untouched s { s with tasks := setPhase s.tasks id .ended } code where
  handles := rfl
  running := rfl
  adapters := rfl
  before := rfl
  runs := by
    intro i key task
    have apart : i ≠ id := by
      rintro rfl
      simp [task] at aborting
    exact (set_phase_other .ended apart).trans task
  lives := by
    intro i u there _ alive
    have apart : i ≠ id := by
      rintro rfl
      rw [set_phase_self] at there
      obtain ⟨t, _, rfl⟩ := Option.map_eq_some_iff.mp there
      exact alive rfl
    exact (set_phase_other .ended apart).symm.trans there

theorem abandon_inv {s : Streams} (inv : Inv fingerprint usable s) {stage : Stage}
    (at_ : s.stage = some stage) :
    Inv fingerprint usable
      { s with stage := none, abandoned := true, left := stage.hand ++ s.left } where
  around code := by
    refine ⟨(inv.around code).registered, ?_, nofun, nofun⟩
    intro id t there own alive
    rcases (inv.around code).accounted id t there own alive with handle | ⟨_, at_', _, held⟩ | lost
    · exact Or.inl handle
    · cases at_.symm.trans at_'
      exact Or.inr (Or.inr (List.mem_append_left _ held))
    · exact Or.inr (Or.inr (List.mem_append_right _ lost))
  stands := by
    intro stage here
    cases here
  kept := nofun
  unwanted := by
    intro w here
    cases here
  served := nofun
  unserved := by
    intro stage here
    cases here

theorem write_inv {s : Streams} (inv : Inv fingerprint usable s) (rows : Wanted) :
    Inv fingerprint usable { s with rows } where
  around code := by
    refine around_untouched (inv.around code) ⟨rfl, rfl, rfl, rfl, fun _ _ => id, ?_⟩ rfl
      (fun _ => id) id ?_
    · exact fun _ _ there _ _ => there
    · exact fun w here => ⟨w, here, keeps_same code w⟩
  stands := by
    intro stage here
    have stands := inv.stands stage here
    cases stage <;> exact stands
  kept := inv.kept
  unwanted := inv.unwanted
  served still free wanted last code := by
    have serves := inv.served still free wanted last code
    exact serves
  unserved := inv.unserved

theorem lock_inv {s t : Streams} (inv : Inv fingerprint usable s)
    (stepped : step fingerprint usable s .lock = some t) : Inv fingerprint usable t := by
  simp only [step] at stepped
  split at stepped
  · rename_i free
    cases stepped
    have idle : ∀ code, Idle s code := by simp [Idle, free]
    refine { around := ?_, stands := ?_, kept := inv.kept, unwanted := ?_, served := ?_, unserved := ?_ }
    · intro code
      refine around_untouched (inv.around code) ⟨rfl, rfl, rfl, rfl, fun _ _ => id, ?_⟩ rfl ?_
        (fun _ => idle code) ?_
      · exact fun _ _ there _ _ => there
      · refine accounted_idle (idle code) ?_ ?_ <;> rfl
      · intro w here
        cases here
    · intro stage here
      cases here
      trivial
    · intro w here
      cases here
    · intro _ wrong
      cases wrong
    · exact fun _ _ => rfl
  · cases stepped

theorem query_inv {s t : Streams} {answered : Bool} (inv : Inv fingerprint usable s)
    (stepped : step fingerprint usable s (.query answered) = some t) : Inv fingerprint usable t := by
  simp only [step] at stepped
  split at stepped
  · rename_i at_
    have idle : ∀ code, Idle s code := fun code => idle_at at_ nofun
    have unserved := inv.unserved _ at_
    split at stepped
    · cases stepped
      refine stage_inv inv idle rfl _ rfl s.handles (fun _ code => plan_planned s _ code) ?_ unserved
      intro code planned
      exact Option.isNone_iff_eq_none.mp (List.mem_filter.mp planned).2
    · cases stepped
      exact end_inv inv idle s.served (by simp [unserved])
  · cases stepped

theorem stop_step {s t : Streams} {code : String} (inv : Inv fingerprint usable s)
    (stepped : step fingerprint usable s (.stop code) = some t) : Inv fingerprint usable t := by
  simp only [step] at stepped
  split at stepped
  · rename_i w at_
    split at stepped
    · rename_i planned
      split at stepped
      · rename_i old there
        cases stepped
        exact stop_inv inv at_ planned there
      · rename_i none_
        cases stepped
        refine forget_inv inv at_ none_ (fun _ _ => nofun) nofun rfl
          (fun other away => keeps_stopped away w) ?_ rfl
          (inv.unwanted w (work_at at_ rfl) code planned)
        exact fun other member => (List.mem_filter.mp member).1
    · cases stepped
  · cases stepped

theorem resolve_inv {s t : Streams} {found : Bool} (inv : Inv fingerprint usable s)
    (stepped : step fingerprint usable s (.resolveMasterKey found) = some t) :
    Inv fingerprint usable t := by
  simp only [step] at stepped
  split at stepped
  · rename_i w at_
    have idle := none_working at_
    have unserved := inv.unserved _ at_
    split at stepped
    · split at stepped
      · cases stepped
        refine stage_inv inv idle rfl { w with opened := true } rfl s.before ?_
          (inv.unwanted w (work_at at_ rfl)) unserved
        exact fun still code => (inv.around code).planned still (idle code) w (work_at at_ rfl)
      · cases stepped
        exact end_inv inv idle s.served (by simp [unserved])
    · cases stepped
  · cases stepped

theorem pass_inv {s : Streams} (inv : Inv fingerprint usable s) {w : Work}
    (at_ : s.stage = some (.working w)) {code : String} {key : FollowKey}
    (wanted : w.wanted.lookup code = some key) (useless : ¬ usable code key = true) :
    Inv fingerprint usable { s with stage := some (.working (w.started code)) } := by
  have idle := none_working at_
  refine stage_inv inv idle rfl (w.started code) rfl s.before ?_
    (inv.unwanted w (work_at at_ rfl)) (inv.unserved _ at_)
  intro still other
  have planned := (inv.around other).planned still (idle other) w (work_at at_ rfl)
  by_cases same : other = code
  · subst same
    unfold Planned at planned ⊢
    dsimp only [Work.started] at planned ⊢
    rw [wanted] at planned ⊢
    dsimp only at planned ⊢
    rw [if_neg useless] at planned ⊢
    exact planned
  · refine planned_untouched ⟨rfl, rfl, rfl, rfl, fun _ _ => id, ?_⟩ (keeps_started same w) planned
    exact fun _ _ there _ _ => there

theorem spawn_step {s t : Streams} {code : String} (inv : Inv fingerprint usable s)
    (stepped : step fingerprint usable s (.spawn code) = some t) : Inv fingerprint usable t := by
  simp only [step] at stepped
  split at stepped
  · rename_i w at_
    split at stepped
    · obtain ⟨key, wanted, taken⟩ := Option.map_eq_some_iff.mp stepped
      split at taken
      · rename_i opens
        cases taken
        exact spawn_inv inv at_ wanted opens
      · rename_i useless
        cases taken
        exact pass_inv inv at_ wanted useless
    · cases stepped
  · cases stepped

theorem abort_step {s t : Streams} (inv : Inv fingerprint usable s)
    (stepped : step fingerprint usable s .abort = some t) : Inv fingerprint usable t := by
  simp only [step] at stepped
  split at stepped
  · rename_i w code id at_
    split at stepped
    · rename_i old there
      cases stepped
      exact abort_inv inv at_ there
    · rename_i none_
      obtain ⟨key, wanted, taken⟩ := Option.map_eq_some_iff.mp stepped
      cases taken
      refine register_inv inv at_ rfl rfl none_ ?_ (inv.stands _ at_).2 wanted
      exact fun i held => Or.inl (List.mem_singleton.mp held)
  · cases stepped

theorem has_ended {s : Streams} {id : Nat} (ended : hasEnded s id = true) {t : Task}
    (there : s.tasks[id]? = some t) : t.phase = .ended := by
  simpa [hasEnded, there] using ended

theorem resume_step {s t : Streams} (inv : Inv fingerprint usable s)
    (stepped : step fingerprint usable s .resume = some t) : Inv fingerprint usable t := by
  simp only [step] at stepped
  split at stepped
  · rename_i w code old at_
    obtain ⟨none_, unwanted⟩ := inv.stands _ at_
    split at stepped
    · rename_i ended
      cases stepped
      refine forget_inv inv at_ none_ ?_ ?_ rfl (fun other _ => keeps_same other w)
        (fun _ => id) rfl unwanted
      · exact fun other away busy => away (Option.some.inj busy).symm
      · intro id held t there
        rw [List.mem_singleton.mp held] at there
        exact has_ended ended there
    · cases stepped
  · rename_i w code id old at_
    obtain ⟨none_, begun⟩ := inv.stands _ at_
    split at stepped
    · rename_i ended
      obtain ⟨key, wanted, taken⟩ := Option.map_eq_some_iff.mp stepped
      cases taken
      refine register_inv inv at_ rfl rfl none_ ?_ begun wanted
      intro i held
      rcases List.mem_cons.mp held with own | last
      · exact Or.inl own
      · rw [List.mem_singleton.mp last]
        exact Or.inr fun t there => has_ended ended there
    · cases stepped
  · cases stepped

theorem finish_inv {s t : Streams} (inv : Inv fingerprint usable s)
    (stepped : step fingerprint usable s .finish = some t) : Inv fingerprint usable t := by
  simp only [step] at stepped
  split at stepped
  · rename_i w at_
    split at stepped
    · rename_i empty
      cases stepped
      refine end_inv inv (none_working at_) (some w.wanted) ?_
      intro still wanted same code
      cases same
      exact finished_serves inv still at_ empty.1 empty.2 code
    · cases stepped
  · cases stepped

theorem die_inv {s t : Streams} {id : Nat} (inv : Inv fingerprint usable s)
    (stepped : step fingerprint usable s (.die id) = some t) : Inv fingerprint usable t := by
  simp only [step] at stepped
  split at stepped
  · rename_i aborting
    cases stepped
    exact tasks_inv inv (die_untouched aborting)
  · cases stepped

theorem abandon_step {s t : Streams} (inv : Inv fingerprint usable s)
    (stepped : step fingerprint usable s .abandon = some t) : Inv fingerprint usable t := by
  simp only [step] at stepped
  split at stepped
  · rename_i at_
    cases stepped
    have unserved := inv.unserved _ at_
    exact end_inv inv (fun _ => idle_at at_ nofun) s.served (by simp [unserved])
  · rename_i at_
    cases stepped
    exact abandon_inv inv at_
  · rename_i at_
    cases stepped
    exact abandon_inv inv at_
  · cases stepped

theorem step_inv {s t : Streams} {a : Action} (inv : Inv fingerprint usable s)
    (stepped : step fingerprint usable s a = some t) : Inv fingerprint usable t := by
  cases a with
  | write rows =>
    cases stepped
    exact write_inv inv rows
  | lock => exact lock_inv inv stepped
  | query answered => exact query_inv inv stepped
  | stop code => exact stop_step inv stepped
  | resolveMasterKey found => exact resolve_inv inv stepped
  | spawn code => exact spawn_step inv stepped
  | abort => exact abort_step inv stepped
  | resume => exact resume_step inv stepped
  | finish => exact finish_inv inv stepped
  | die id => exact die_inv inv stepped
  | abandon => exact abandon_step inv stepped

theorem start_inv (rows : Wanted) : Inv fingerprint usable (.start rows) where
  around code := by
    refine ⟨nofun, ?_, fun _ _ => ⟨rfl, rfl⟩, ?_⟩
    · intro id t there
      simp [Streams.start] at there
    · intro _ _ w here
      cases here
  stands := by
    intro stage here
    cases here
  kept _ := rfl
  unwanted := by
    intro w here
    cases here
  served := by
    intro _ _ wanted last
    cases last
  unserved := by
    intro stage here
    cases here

theorem hand_fresh {s : Streams} {stage : Stage} {code : String} {i j : Nat}
    (stands : Stands usable s stage) (busy : stage.busy = some code) (own : i ∈ stage.hand)
    (second : s.handles code = some j ∨ j ∈ stage.hand) :
    i = j ∨ stage.fresh = some (code, i) ∨ stage.fresh = some (code, j) := by
  cases stage with
  | querying => cases own
  | working w => cases own
  | stopping w _ old =>
    cases busy
    rw [List.mem_singleton.mp own]
    rcases second with handle | too
    · rw [stands.1] at handle
      cases handle
    · exact Or.inl (List.mem_singleton.mp too).symm
  | spawned w _ id =>
    cases busy
    rw [List.mem_singleton.mp own]
    exact Or.inr (Or.inl rfl)
  | joining w _ id old =>
    cases busy
    rcases List.mem_cons.mp own with rfl | last
    · exact Or.inr (Or.inl rfl)
    · rw [List.mem_singleton.mp last]
      rcases second with handle | too
      · rw [stands.1] at handle
        cases handle
      · rcases List.mem_cons.mp too with rfl | last'
        · exact Or.inr (Or.inr rfl)
        · exact Or.inl (List.mem_singleton.mp last').symm

theorem held_once {s : Streams} (inv : Inv fingerprint usable s) (still : s.abandoned = false)
    {i : Nat} {t : Task} {code : String} (there : s.tasks[i]? = some t) (own : t.code = code)
    (alive : t.phase ≠ .ended) : s.handles code = some i ∨
      ∃ stage ∈ s.stage, stage.busy = some code ∧ i ∈ stage.hand := by
  have accounted := (inv.around code).accounted i t there own alive
  rw [Accounted, inv.kept still, ← or_assoc] at accounted
  exact accounted.resolve_right nofun

theorem inv_once {s : Streams} (inv : Inv fingerprint usable s) (still : s.abandoned = false)
    {i j : Nat} {t u : Task} (one : s.tasks[i]? = some t) (other : s.tasks[j]? = some u)
    (same : t.code = u.code) (alive : t.phase ≠ .ended) (alive' : u.phase ≠ .ended) :
    i = j ∨ ∃ stage ∈ s.stage, stage.fresh = some (t.code, i) ∨ stage.fresh = some (t.code, j) := by
  have second := held_once inv still other same.symm alive'
  rcases held_once inv still one rfl alive with handle | ⟨stage, here, busy, own⟩
  · rcases second with handle' | ⟨stage, here, busy, own⟩
    · exact Or.inl (Option.some.inj (handle.symm.trans handle'))
    · rcases hand_fresh (inv.stands stage here) busy own (Or.inl handle) with equal | new
      · exact Or.inl equal.symm
      · exact Or.inr ⟨stage, here, new.symm⟩
  · have second' : s.handles t.code = some j ∨ j ∈ stage.hand := by
      refine second.imp_right ?_
      rintro ⟨stage', here', -, own'⟩
      cases here.symm.trans here'
      exact own'
    rcases hand_fresh (inv.stands stage here) busy own second' with equal | new
    · exact Or.inl equal
    · exact Or.inr ⟨stage, here, new⟩

theorem followed {s : Streams} (inv : Inv fingerprint usable s) :
    Followed fingerprint usable s where
  registered code := (inv.around code).registered
  accounted id t there alive := (inv.around t.code).accounted id t there rfl alive
  once still _ _ _ _ one other same alive alive' := inv_once inv still one other same alive alive'
  aligned still free code := (inv.around code).aligned still (by simp [Idle, free])
  served := inv.served

/-- However registry writes, calls, waits and hang-ups fall, no stream goes on that is not
    in the registry or in the hands of a call; and while no call was abandoned an account
    is followed by one stream, or by an old one and the one that replaces it, and as the last
    call that got through found it wanted. -/
theorem streams_followed (fingerprint : FollowKey → Nat) (usable : String → FollowKey → Bool)
    (rows : Wanted) (acts : List Action) :
    Throughout (step fingerprint usable) (Followed fingerprint usable) (.start rows) acts := by
  have all : Throughout (step fingerprint usable) (Inv fingerprint usable) (.start rows) acts :=
    throughout_keeps (fun _ _ _ before stepped => step_inv before stepped) (start_inv rows) acts
  exact throughout_mono (fun _ => followed) all

end OmsFollowStreams
