import OpenOms.Library.Lists
import OpenOms.Library.Runs
import Mathlib.Logic.Function.Basic

/-!
The reconcile tasks of the order engine and the slots that keep them to one per
connection. A slot is removed by its task under the lock and once more by the
guard the task drops after it; the engine's loop may handle a request between
the two.
-/
namespace OmsReconcileSlots
open Lists Runs
variable {K : Type}

/-- The slots of the connections with a task; the value is "run again when this
    one finishes". -/
abbrev Running (K : Type) := K → Option Bool

inductive Stage where
  | ready
  | pass
  -- the pass has returned, the slot is not looked at yet
  | finished
  -- a pass panicked: the guard is still to be dropped
  | unwinding
  -- the slot is removed under the lock, the guard is still to be dropped
  | leaving
  | ended
  deriving DecidableEq, Repr

/-- `owed`: a request came while the task ran, and no pass has started since. -/
structure Task (K : Type) where
  key : K
  stage : Stage
  owed : Bool
  deriving DecidableEq, Repr

structure ReconcileSlots (K : Type) where
  running : Running K
  tasks : List (Task K)

def ReconcileSlots.start : ReconcileSlots K := ⟨fun _ => none, []⟩

inductive Action (K : Type) where
  | request (key : K)
  | startPass (i : Nat)
  | finishPass (i : Nat)
  | panic (i : Nat)
  | inspect (i : Nat)
  | dropGuard (i : Nat)
  deriving DecidableEq, Repr

def Stage.runs : Stage → Bool
  | .ready | .pass | .finished => true
  | .unwinding | .leaving | .ended => false

variable [DecidableEq K]

/-- A request: a task that runs is told to run again, else one is spawned. -/
def handleRequest (running : Running K) (key : K) : Running K × Bool :=
  match running key with
  | some _ => (Function.update running key (some true), false)
  | none => (Function.update running key (some false), true)

/-- After a pass, under the lock: whether the task runs again. -/
def inspectSlot (running : Running K) (key : K) : Running K × Bool :=
  match running key with
  | some true => (Function.update running key (some false), true)
  | _ => (Function.update running key none, false)

def dropSlot (running : Running K) (key : K) : Running K := Function.update running key none

def owe (key : K) (task : Task K) : Task K :=
  if task.key = key ∧ task.stage.runs then { task with owed := true } else task

def serve (key : K) (task : Task K) : Task K :=
  if task.key = key then { task with owed := false } else task

def step (s : ReconcileSlots K) : Action K → Option (ReconcileSlots K)
  | .request key =>
    let (running, spawns) := handleRequest s.running key
    let owing := s.tasks.map (owe key)
    some ⟨running, if spawns then owing ++ [⟨key, .ready, false⟩] else owing⟩
  | .startPass i =>
    match s.tasks[i]? with
    | some ⟨key, .ready, _⟩ =>
      some { s with tasks := (s.tasks.map (serve key)).set i ⟨key, .pass, false⟩ }
    | _ => none
  | .finishPass i =>
    match s.tasks[i]? with
    | some ⟨key, .pass, owed⟩ => some { s with tasks := s.tasks.set i ⟨key, .finished, owed⟩ }
    | _ => none
  | .panic i =>
    match s.tasks[i]? with
    | some ⟨key, .pass, _⟩ => some { s with tasks := s.tasks.set i ⟨key, .unwinding, false⟩ }
    | _ => none
  | .inspect i =>
    match s.tasks[i]? with
    | some ⟨key, .finished, owed⟩ =>
      let (running, again) := inspectSlot s.running key
      some ⟨running, s.tasks.set i ⟨key, if again then .ready else .leaving, owed⟩⟩
    | _ => none
  | .dropGuard i =>
    match s.tasks[i]? with
    | some ⟨key, .unwinding, owed⟩ =>
      some ⟨dropSlot s.running key, s.tasks.set i ⟨key, .ended, owed⟩⟩
    | some ⟨key, .leaving, owed⟩ =>
      some ⟨dropSlot s.running key, s.tasks.set i ⟨key, .ended, owed⟩⟩
    | _ => none

def OneEach (s : ReconcileSlots K) : Prop :=
  s.tasks.Pairwise fun a b => a.key = b.key → ¬ (a.stage.runs ∧ b.stage.runs)

/-- Once no task of a connection runs, every request that came while one ran has
    been followed by a pass. -/
def NoneForgotten (s : ReconcileSlots K) : Prop :=
  ∀ key, (∀ task ∈ s.tasks, task.key = key → ¬ task.stage.runs) →
    ∀ task ∈ s.tasks, task.key = key → task.owed = false

def Lawful (s : ReconcileSlots K) : Prop := OneEach s ∧ NoneForgotten s

/-- A task that has removed its own slot drops its guard on a slot put there since. -/
def FreesAnothers (s : ReconcileSlots K) (a : Action K) : Prop :=
  match a with
  | .dropGuard i => ∃ task ∈ s.tasks[i]?, task.stage = .leaving ∧ (s.running task.key).isSome
  | _ => False

instance (s : ReconcileSlots K) (a : Action K) : Decidable (FreesAnothers s a) := by
  unfold FreesAnothers
  split <;> infer_instance

def Stage.holds : Stage → Bool
  | .ready | .pass | .finished | .unwinding => true
  | .leaving | .ended => false

structure Inv (s : ReconcileSlots K) : Prop where
  apart : s.tasks.Pairwise fun a b => a.key = b.key → ¬ (a.stage.holds ∧ b.stage.holds)
  slot : ∀ task ∈ s.tasks, task.stage.holds → (s.running task.key).isSome
  told : ∀ task ∈ s.tasks, task.owed →
    task.stage = .ready ∨ task.stage.runs ∧ s.running task.key = some true

theorem runs_holds {stage : Stage} (runs : stage.runs) : stage.holds := by
  cases stage <;> first | rfl | cases runs

omit [DecidableEq K] in
theorem start_inv : Inv (.start : ReconcileSlots K) := by
  refine ⟨.nil, ?_, ?_⟩ <;> simp [ReconcileSlots.start]

@[simp] theorem owe_key (key : K) (task : Task K) : (owe key task).key = task.key := by
  unfold owe
  split <;> rfl

@[simp] theorem owe_stage (key : K) (task : Task K) : (owe key task).stage = task.stage := by
  unfold owe
  split <;> rfl

@[simp] theorem serve_key (key : K) (task : Task K) : (serve key task).key = task.key := by
  unfold serve
  split <;> rfl

@[simp] theorem serve_stage (key : K) (task : Task K) : (serve key task).stage = task.stage := by
  unfold serve
  split <;> rfl

omit [DecidableEq K] in
theorem owed_holds {s : ReconcileSlots K} (inv : Inv s) {task : Task K} (member : task ∈ s.tasks)
    (owed : task.owed) : task.stage.holds := by
  rcases inv.told task member owed with ready | ⟨runs, _⟩
  · simp [ready, Stage.holds]
  · exact runs_holds runs

theorem serve_keeps {s : ReconcileSlots K} (inv : Inv s) (key : K) :
    Inv { s with tasks := s.tasks.map (serve key) } := by
  refine ⟨?_, ?_, ?_⟩
  · simpa [List.pairwise_map] using inv.apart
  · simpa using inv.slot
  · intro served member owed
    obtain ⟨task, old, rfl⟩ := List.mem_map.mp member
    have owedBefore : task.owed = true := by
      unfold serve at owed
      split at owed
      · cases owed
      · exact owed
    simpa using inv.told task old owedBefore

omit [DecidableEq K] in
theorem others_apart {s : ReconcileSlots K} (inv : Inv s) {i : Nat} {task : Task K}
    (there : s.tasks[i]? = some task) (holds : task.stage.holds) :
    ∀ other ∈ s.tasks.eraseIdx i, other.key = task.key → ¬ other.stage.holds := by
  intro other member same held
  have symm : ∀ a b : Task K, (a.key = b.key → ¬ (a.stage.holds ∧ b.stage.holds)) →
      b.key = a.key → ¬ (b.stage.holds ∧ a.stage.holds) :=
    fun a b apart same both => apart same.symm both.symm
  exact pairwise_others symm inv.apart i there other member same.symm ⟨holds, held⟩

omit [DecidableEq K] in
theorem set_apart {s : ReconcileSlots K} (inv : Inv s) {i : Nat} {task new : Task K}
    (there : s.tasks[i]? = some task) (key : new.key = task.key)
    (holds : new.stage.holds → task.stage.holds) :
    (s.tasks.set i new).Pairwise fun a b => a.key = b.key → ¬ (a.stage.holds ∧ b.stage.holds) := by
  refine pairwise_set (fun a b apart same both => apart same.symm both.symm) inv.apart i ?_
  rintro other member same ⟨newHolds, otherHolds⟩
  exact others_apart inv there (holds newHolds) other member (same.symm.trans key) otherHolds

omit [DecidableEq K] in
theorem move_keeps {s : ReconcileSlots K} (inv : Inv s) {i : Nat} {task new : Task K}
    {running : Running K} (there : s.tasks[i]? = some task) (holds : task.stage.holds)
    (key : new.key = task.key) (frame : ∀ other ≠ task.key, running other = s.running other)
    (slot : new.stage.holds → (running task.key).isSome)
    (told : new.owed → new.stage = .ready ∨ new.stage.runs ∧ running task.key = some true) :
    Inv ⟨running, s.tasks.set i new⟩ := by
  refine ⟨set_apart inv there key fun _ => holds, ?_, ?_⟩
  · intro other member otherHolds
    rcases mem_set_others i member with rfl | old
    · exact key ▸ slot otherHolds
    · have away : other.key ≠ task.key := fun same =>
        others_apart inv there holds other old same otherHolds
      show (running other.key).isSome
      rw [frame other.key away]
      exact inv.slot other (List.mem_of_mem_eraseIdx old) otherHolds
  · intro other member owed
    rcases mem_set_others i member with rfl | old
    · exact key ▸ told owed
    · have present := List.mem_of_mem_eraseIdx old
      have away : other.key ≠ task.key := fun same =>
        others_apart inv there holds other old same (owed_holds inv present owed)
      show other.stage = .ready ∨ other.stage.runs ∧ running other.key = some true
      rw [frame other.key away]
      exact inv.told other present owed

theorem request_keeps {s t : ReconcileSlots K} {key : K} (inv : Inv s)
    (next : step s (.request key) = some t) : Inv t := by
  have apart : (s.tasks.map (owe key)).Pairwise
      fun a b => a.key = b.key → ¬ (a.stage.holds ∧ b.stage.holds) := by
    simpa [List.pairwise_map] using inv.apart
  cases found : s.running key with
  | some rerun =>
    simp only [step, handleRequest, found, Bool.false_eq_true, if_false, Option.some.injEq] at next
    subst next
    refine ⟨apart, ?_, ?_⟩
    · intro owing member holds
      obtain ⟨task, old, rfl⟩ := List.mem_map.mp member
      simp only [owe_key, owe_stage] at holds ⊢
      by_cases same : task.key = key
      · simp [same]
      · simpa [Function.update_of_ne same] using inv.slot task old holds
    · intro owing member owed
      obtain ⟨task, old, rfl⟩ := List.mem_map.mp member
      simp only [owe_key, owe_stage]
      by_cases same : task.key = key
      · subst same
        rw [Function.update_self]
        by_cases runs : task.stage.runs
        · exact Or.inr ⟨runs, rfl⟩
        · simp only [owe, runs, Bool.false_eq_true, and_false, if_false] at owed
          exact (inv.told task old owed).imp_right fun told => ⟨told.1, rfl⟩
      · simp only [owe, same, false_and, if_false] at owed
        rw [Function.update_of_ne same]
        exact inv.told task old owed
  | none =>
    have free : ∀ task ∈ s.tasks, task.key = key → ¬ task.stage.holds := by
      intro task member same holds
      have stands := inv.slot task member holds
      simp [same, found] at stands
    simp only [step, handleRequest, found, if_true, Option.some.injEq] at next
    subst next
    refine ⟨?_, ?_, ?_⟩
    · refine List.pairwise_append.mpr ⟨apart, List.pairwise_singleton _ _, ?_⟩
      rintro owing member new isNew same ⟨holds, _⟩
      obtain ⟨task, old, rfl⟩ := List.mem_map.mp member
      cases List.mem_singleton.mp isNew
      exact free task old (by simpa using same) (by simpa using holds)
    · intro owing member holds
      rcases List.mem_append.mp member with mapped | isNew
      · obtain ⟨task, old, rfl⟩ := List.mem_map.mp mapped
        simp only [owe_key, owe_stage] at holds ⊢
        have away : task.key ≠ key := fun same => free task old same holds
        simpa [Function.update_of_ne away] using inv.slot task old holds
      · cases List.mem_singleton.mp isNew
        simp
    · intro owing member owed
      rcases List.mem_append.mp member with mapped | isNew
      · obtain ⟨task, old, rfl⟩ := List.mem_map.mp mapped
        have quiet : ¬ (task.key = key ∧ task.stage.runs) := fun both =>
          free task old both.1 (runs_holds both.2)
        simp only [owe, quiet, if_false] at owed ⊢
        have away : task.key ≠ key := fun same =>
          free task old same (owed_holds inv old owed)
        simpa [Function.update_of_ne away] using inv.told task old owed
      · cases List.mem_singleton.mp isNew
        cases owed

theorem step_keeps {s t : ReconcileSlots K} {a : Action K} (inv : Inv s)
    (ok : ¬ FreesAnothers s a) (next : step s a = some t) : Inv t := by
  cases a with
  | request key => exact request_keeps inv next
  | startPass i =>
    simp only [step] at next
    split at next
    · rename_i key owed there
      cases next
      have served : (s.tasks.map (serve key))[i]? = some (serve key ⟨key, .ready, owed⟩) := by
        simp [there]
      refine move_keeps (serve_keeps inv key) served ?_ ?_ (fun _ _ => rfl) ?_ ?_
      · simp [Stage.holds]
      · simp
      · intro _
        simpa using inv.slot _ (List.mem_of_getElem? there) rfl
      · simp
    · cases next
  | finishPass i =>
    simp only [step] at next
    split at next
    · rename_i key owed there
      cases next
      have member := List.mem_of_getElem? there
      refine move_keeps inv there rfl rfl (fun _ _ => rfl) (fun _ => inv.slot _ member rfl) ?_
      intro owes
      have told := inv.told _ member owes
      simpa [Stage.runs] using told
    · cases next
  | panic i =>
    simp only [step] at next
    split at next
    · rename_i key owed there
      cases next
      have member := List.mem_of_getElem? there
      refine move_keeps inv there rfl rfl (fun _ _ => rfl) (fun _ => inv.slot _ member rfl) ?_
      simp
    · cases next
  | inspect i =>
    simp only [step] at next
    split at next
    · rename_i key owed there
      cases next
      have told := inv.told _ (List.mem_of_getElem? there)
      unfold inspectSlot
      split
      · refine move_keeps inv there rfl rfl ?_ ?_ ?_
        · exact fun other away => Function.update_of_ne away _ _
        · simp
        · simp
      · rename_i untold
        refine move_keeps inv there rfl rfl ?_ ?_ ?_
        · exact fun other away => Function.update_of_ne away _ _
        · simp [Stage.holds]
        · intro owes
          rcases told owes with ready | ⟨_, rerun⟩
          · cases ready
          · exact absurd rerun untold
    · cases next
  | dropGuard i =>
    simp only [step] at next
    split at next
    · rename_i key owed there
      cases next
      refine move_keeps inv there rfl rfl ?_ ?_ ?_
      · exact fun other away => Function.update_of_ne away _ _
      · simp [Stage.holds]
      · intro owes
        have told := inv.told _ (List.mem_of_getElem? there) owes
        simp [Stage.runs] at told
    · rename_i key owed there
      cases next
      have free : s.running key = none := by
        by_contra stands
        exact ok ⟨_, there, rfl, Option.isSome_iff_ne_none.mpr stands⟩
      have same : dropSlot s.running key = s.running := by
        rw [dropSlot, ← free, Function.update_eq_self]
      rw [same]
      refine ⟨set_apart inv there rfl (by simp [Stage.holds]), ?_, ?_⟩
      · exact forall_mem_set inv.slot (by simp [Stage.holds])
      · refine forall_mem_set inv.told fun owes => ?_
        have told := inv.told _ (List.mem_of_getElem? there) owes
        simp [Stage.runs] at told
    · cases next

omit [DecidableEq K] in
theorem inv_lawful {s : ReconcileSlots K} (inv : Inv s) : Lawful s := by
  constructor
  · refine inv.apart.imp ?_
    rintro a b apart same ⟨left, right⟩
    exact apart same ⟨runs_holds left, runs_holds right⟩
  · intro key idle task member same
    by_contra owes
    have owed : task.owed = true := by simpa using owes
    rcases inv.told task member owed with ready | ⟨runs, _⟩
    · exact idle task member same (by simp [ready, Stage.runs])
    · exact idle task member same runs

/-- As long as no guard frees another task's slot, there is one reconcile per
    connection and no request is forgotten. -/
theorem one_reconcile_per_connection (as : List (Action K))
    (steps : Along step (fun s a => ¬ FreesAnothers s a) .start as) :
    Throughout step Lawful (.start : ReconcileSlots K) as :=
  throughout_mono (fun _ => inv_lawful)
    (throughout_along (fun _ _ _ inv ok next => step_keeps inv ok next) start_inv steps)

/-- A request during a pass, and one more while the task runs it again; the last
    request comes once the guard is dropped. -/
def reconnects : List (Action String) :=
  [.request "okx", .startPass 0, .request "okx", .finishPass 0, .inspect 0, .startPass 0,
    .request "okx", .panic 0, .dropGuard 0, .request "okx", .startPass 1, .finishPass 1,
    .inspect 1, .dropGuard 1, .request "okx"]

theorem reconnects_lawful : Throughout step Lawful .start reconnects :=
  one_reconcile_per_connection reconnects (by decide)

/-- The second request comes between the first task's two removals of its slot. -/
def requestInTheGap : List (Action String) :=
  [.request "okx", .startPass 0, .finishPass 0, .inspect 0, .request "okx", .startPass 1]

/-- A guard frees the next task's slot: a third request then starts a task beside
    it, or is forgotten when it came just before. -/
theorem reconciles_twice_and_forgets :
    ¬ Throughout step Lawful .start (requestInTheGap ++ [.dropGuard 0, .request "okx"]) ∧
      ¬ Throughout step Lawful .start (requestInTheGap ++
        [.request "okx", .dropGuard 0, .finishPass 1, .inspect 1, .dropGuard 1]) := by
  constructor
  · intro lawful
    obtain ⟨t, ends, twice⟩ : ∃ t ∈ run step (.start : ReconcileSlots String)
        (requestInTheGap ++ [.dropGuard 0, .request "okx"]), ¬ OneEach t :=
      ⟨_, rfl, by unfold OneEach; decide⟩
    exact twice (throughout_end lawful t ends).1
  · intro lawful
    obtain ⟨t, ends, forgets⟩ : ∃ t ∈ run step (.start : ReconcileSlots String)
        (requestInTheGap ++ [.request "okx", .dropGuard 0, .finishPass 1, .inspect 1,
          .dropGuard 1]),
        (∀ task ∈ t.tasks, ¬ task.stage.runs) ∧ ∃ task ∈ t.tasks, task.key = "okx" ∧ task.owed :=
      ⟨_, rfl, by decide, by decide⟩
    obtain ⟨idle, task, member, key, owed⟩ := forgets
    have followed := (throughout_end lawful t ends).2 "okx" (fun other present _ =>
      idle other present) task member key
    simp [followed] at owed

end OmsReconcileSlots
