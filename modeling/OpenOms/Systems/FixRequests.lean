import OpenOms.Library.Lists
import OpenOms.Library.Runs
import Mathlib.Logic.Function.Basic

/-!
A strategy's FIX requests, each handled on a task of its own. A new order is
marked in flight before its task starts; a cancel or status request waits for the
mark of the order it names. `K` is a strategy's code with a ClOrdID.
-/
namespace OmsFixRequests
open Lists Runs
variable {K : Type}

inductive ClientRequest (K : Type) where
  | newOrder (id : K)
  | cancel (orig : K)
  | status (id : K)
  | securityList
  deriving DecidableEq, Repr

inductive Stage where
  | received
  | placing
  | placed
  -- the guard is dropped, the mark not yet removed
  | released
  | waits (lock : Nat)
  | handling
  | ended
  -- the guard is dropped, the mark stays
  | panicked
  deriving DecidableEq, Repr

structure Task (K : Type) where
  request : ClientRequest K
  stage : Stage
  deriving DecidableEq, Repr

/-- A mark is the number of the task whose lock it holds; tasks are numbered as
    their requests were received. -/
abbrev InFlight (K : Type) := K → Option Nat

structure FixRequests (K : Type) where
  inFlight : InFlight K
  tasks : List (Task K)

def FixRequests.start : FixRequests K := ⟨fun _ => none, []⟩

inductive Action (K : Type) where
  | receive (request : ClientRequest K)
  | run (i : Nat)
  | acquire (i : Nat)
  | handled (i : Nat)
  | dropGuard (i : Nat)
  | finish (i : Nat)
  | panic (i : Nat)
  deriving DecidableEq, Repr

def ClientRequest.names : ClientRequest K → Option K
  | .cancel orig => some orig
  | .status id => some id
  | .newOrder _ | .securityList => none

def ClientRequest.places : ClientRequest K → Option K
  | .newOrder id => some id
  | .cancel _ | .status _ | .securityList => none

def Stage.guarded : Stage → Bool
  | .received | .placing | .placed => true
  | .released | .waits _ | .handling | .ended | .panicked => false

def Stage.settled : Stage → Bool
  | .received | .placing => false
  | .placed | .released | .waits _ | .handling | .ended | .panicked => true

def Stage.done : Stage → Bool
  | .ended | .panicked => true
  | .received | .placing | .placed | .released | .waits _ | .handling => false

def Stage.runs : Stage → Bool
  | .handling | .ended | .panicked => true
  | .received | .placing | .placed | .released | .waits _ => false

section
variable [DecidableEq K]

def InFlight.begin (marks : InFlight K) (id : K) (lock : Nat) : InFlight K :=
  Function.update marks id (some lock)

/-- The source's `end`: whatever mark is there goes. -/
def InFlight.remove (marks : InFlight K) (id : K) : InFlight K := Function.update marks id none

def setStage (s : FixRequests K) (i : Nat) (task : Task K) (stage : Stage) : FixRequests K :=
  { s with tasks := s.tasks.set i { task with stage := stage } }

def firstStage (marks : InFlight K) : ClientRequest K → Stage
  | .newOrder _ => .placing
  | .cancel orig => (marks orig).elim .handling .waits
  | .status id => (marks id).elim .handling .waits
  | .securityList => .handling

def step (s : FixRequests K) : Action K → Option (FixRequests K)
  | .receive request =>
    let tasks := s.tasks ++ [⟨request, .received⟩]
    match request.places with
    | some id => some ⟨s.inFlight.begin id s.tasks.length, tasks⟩
    | none => some ⟨s.inFlight, tasks⟩
  | .run i =>
    match s.tasks[i]? with
    | some ⟨request, .received⟩ =>
      some (setStage s i ⟨request, .received⟩ (firstStage s.inFlight request))
    | _ => none
  | .acquire i =>
    match s.tasks[i]? with
    | some ⟨request, .waits lock⟩ =>
      match s.tasks[lock]? with
      | some owner =>
        if owner.stage.guarded then none
        else some (setStage s i ⟨request, .waits lock⟩ .handling)
      | none => none
    | _ => none
  | .handled i =>
    match s.tasks[i]? with
    | some ⟨.newOrder id, .placing⟩ => some (setStage s i ⟨.newOrder id, .placing⟩ .placed)
    | some ⟨request, .handling⟩ => some (setStage s i ⟨request, .handling⟩ .ended)
    | _ => none
  | .dropGuard i =>
    match s.tasks[i]? with
    | some ⟨.newOrder id, .placed⟩ => some (setStage s i ⟨.newOrder id, .placed⟩ .released)
    | _ => none
  | .finish i =>
    match s.tasks[i]? with
    | some ⟨.newOrder id, .released⟩ =>
      some { setStage s i ⟨.newOrder id, .released⟩ .ended with
        inFlight := s.inFlight.remove id }
    | _ => none
  | .panic i =>
    match s.tasks[i]? with
    | some ⟨.newOrder id, .placing⟩ => some (setStage s i ⟨.newOrder id, .placing⟩ .panicked)
    | some ⟨request, .handling⟩ => some (setStage s i ⟨request, .handling⟩ .panicked)
    | _ => none

end

/-- Every new order of the ClOrdID received before task `i` has finished being
    placed, but for the one set apart. -/
def SettledBefore (tasks : List (Task K)) (i : Nat) (id : K) (apart : Option Nat) : Prop :=
  ∀ j < i, apart ≠ some j → ∀ order : Task K, tasks[j]? = some order →
    order.request.places = some id → order.stage.settled

/-- A request that names an order runs only after every new order of that name
    received before it has finished being placed. -/
def WaitsForItsOrder (s : FixRequests K) : Prop :=
  ∀ (i : Nat) (task : Task K), s.tasks[i]? = some task → task.stage.runs →
    ∀ id, task.request.names = some id → SettledBefore s.tasks i id none

/-- A new order repeats the ClOrdID of one whose task has not ended. -/
def RepeatsInFlight (s : FixRequests K) (a : Action K) : Prop :=
  match a with
  | .receive request => ∃ id ∈ request.places, ∃ task ∈ s.tasks,
      task.request.places = some id ∧ ¬ task.stage.done
  | _ => False

instance [DecidableEq K] (s : FixRequests K) (a : Action K) : Decidable (RepeatsInFlight s a) := by
  unfold RepeatsInFlight
  split <;> infer_instance

/-- An order in flight is the one its mark points at, and a waiting request waits
    for the only order it names that may not be placed yet. -/
structure Inv (s : FixRequests K) : Prop where
  marked : ∀ (j : Nat) (order : Task K), s.tasks[j]? = some order → ¬ order.stage.done →
    ∀ id, order.request.places = some id → s.inFlight id = some j
  behind : ∀ (i : Nat) (task : Task K) (lock : Nat), s.tasks[i]? = some task →
    task.stage = .waits lock → ∀ id, task.request.names = some id →
      SettledBefore s.tasks i id (some lock)
  ordered : WaitsForItsOrder s

theorem done_settled {stage : Stage} (done : stage.done) : stage.settled := by
  cases stage <;> first | rfl | cases done

theorem released_settled {stage : Stage} (released : ¬ stage.guarded) : stage.settled := by
  cases stage <;> first | rfl | exact absurd rfl released

theorem start_inv : Inv (.start : FixRequests K) := by
  refine ⟨?_, ?_, ?_⟩ <;> simp [FixRequests.start, WaitsForItsOrder]

theorem settled_before_set {tasks : List (Task K)} {i bound : Nat} {task new : Task K} {id : K}
    {apart : Option Nat} (there : tasks[i]? = some task) (same : new.request = task.request)
    (further : task.stage.settled → new.stage.settled)
    (before : SettledBefore tasks bound id apart) :
    SettledBefore (tasks.set i new) bound id apart := by
  intro j earlier other order found places
  rcases at_set found with ⟨rfl, rfl⟩ | ⟨_, old⟩
  · exact further (before j earlier other task there (same ▸ places))
  · exact before j earlier other order old places

theorem settled_before_append {tasks : List (Task K)} {bound : Nat} {new : Task K} {id : K}
    {apart : Option Nat} (within : bound ≤ tasks.length)
    (before : SettledBefore tasks bound id apart) :
    SettledBefore (tasks ++ [new]) bound id apart := by
  intro j earlier other order found places
  rw [List.getElem?_append_left (by omega)] at found
  exact before j earlier other order found places

theorem move_keeps {s : FixRequests K} (inv : Inv s) {i : Nat} {task : Task K} {stage : Stage}
    {marks : InFlight K} (there : s.tasks[i]? = some task)
    (further : task.stage.settled → stage.settled)
    (marked : ∀ (j : Nat) (order : Task K),
      (s.tasks.set i { task with stage := stage })[j]? = some order → ¬ order.stage.done →
        ∀ id, order.request.places = some id → marks id = some j)
    (behind : ∀ lock, stage = .waits lock → ∀ id, task.request.names = some id →
      SettledBefore s.tasks i id (some lock))
    (ordered : stage.runs → ∀ id, task.request.names = some id →
      SettledBefore s.tasks i id none) :
    Inv ⟨marks, s.tasks.set i { task with stage := stage }⟩ := by
  refine ⟨marked, ?_, ?_⟩
  · intro j other lock found waits id names
    refine settled_before_set there rfl further ?_
    rcases at_set found with ⟨rfl, rfl⟩ | ⟨_, old⟩
    · exact behind lock waits id names
    · exact inv.behind j other lock old waits id names
  · intro j other found runs id names
    refine settled_before_set there rfl further ?_
    rcases at_set found with ⟨rfl, rfl⟩ | ⟨_, old⟩
    · exact ordered runs id names
    · exact inv.ordered j other old runs id names

/-- A stage change that ends no order later than before leaves the marks right. -/
theorem marked_set {s : FixRequests K} (inv : Inv s) {i : Nat} {task : Task K} {stage : Stage}
    (there : s.tasks[i]? = some task) (live : ¬ stage.done → ¬ task.stage.done)
    (j : Nat) (order : Task K)
    (found : (s.tasks.set i { task with stage := stage })[j]? = some order)
    (flying : ¬ order.stage.done) (id : K) (places : order.request.places = some id) :
    s.inFlight id = some j := by
  rcases at_set found with ⟨rfl, rfl⟩ | ⟨_, old⟩
  · exact inv.marked j task there (live flying) id places
  · exact inv.marked j order old flying id places

variable [DecidableEq K]

theorem receive_keeps {s t : FixRequests K} {request : ClientRequest K} (inv : Inv s)
    (ok : ¬ RepeatsInFlight s (.receive request)) (next : step s (.receive request) = some t) :
    Inv t := by
  have tasks : t.tasks = s.tasks ++ [⟨request, .received⟩] := by
    simp only [step] at next
    split at next <;> (cases next; rfl)
  have old : ∀ (j : Nat) (other : Task K), t.tasks[j]? = some other →
      j < s.tasks.length ∧ s.tasks[j]? = some other ∨
        j = s.tasks.length ∧ other = ⟨request, .received⟩ := by
    intro j other found
    rw [tasks] at found
    exact at_append found
  refine ⟨?_, ?_, ?_⟩
  · intro j order found flying id places
    rcases old j order found with ⟨within, before⟩ | ⟨rfl, rfl⟩
    · have mark := inv.marked j order before flying id places
      simp only [step] at next
      split at next
      · rename_i fresh placed
        cases next
        have other : id ≠ fresh := by
          rintro rfl
          exact ok ⟨id, placed, order, List.mem_of_getElem? before, places, flying⟩
        simpa [InFlight.begin, Function.update_of_ne other] using mark
      · cases next
        exact mark
    · simp only [step, places] at next
      cases next
      simp [InFlight.begin]
  · intro i task lock found waits id names
    rw [tasks]
    rcases old i task found with ⟨within, before⟩ | ⟨rfl, rfl⟩
    · have behind := inv.behind i task lock before waits id names
      exact settled_before_append (Nat.le_of_lt within) behind
    · cases waits
  · intro i task found runs id names
    rw [tasks]
    rcases old i task found with ⟨within, before⟩ | ⟨rfl, rfl⟩
    · exact settled_before_append (Nat.le_of_lt within) (inv.ordered i task before runs id names)
    · cases runs

theorem run_keeps {s t : FixRequests K} {i : Nat} (inv : Inv s)
    (next : step s (.run i) = some t) : Inv t := by
  simp only [step] at next
  split at next
  · rename_i request there
    cases next
    have unmarked : ∀ id j, s.inFlight id ≠ some j → ∀ order : Task K,
        s.tasks[j]? = some order → order.request.places = some id → order.stage.settled := by
      intro id j off order found places
      by_contra unsettled
      exact off (inv.marked j order found (fun done => unsettled (done_settled done)) id places)
    have first : ∀ id, request.names = some id →
        firstStage s.inFlight request = (s.inFlight id).elim .handling .waits := by
      intro id names
      cases request <;> cases names <;> rfl
    refine move_keeps inv there ?_ (marked_set inv there ?_) ?_ ?_
    · intro settled
      cases settled
    · intro _ done
      cases done
    · intro lock waits id names j _ apart order found places
      rw [first id names] at waits
      cases mark : s.inFlight id with
      | none => simp [mark] at waits
      | some j' =>
        simp only [mark, Option.elim_some, Stage.waits.injEq] at waits
        exact unmarked id j (by simpa [mark, waits] using apart) order found places
    · intro runs id names j _ _ order found places
      rw [first id names] at runs
      cases mark : s.inFlight id with
      | none => exact unmarked id j (by simp [mark]) order found places
      | some j' => simp [mark, Stage.runs] at runs
  · cases next

omit [DecidableEq K] in
theorem quiet_keeps {s : FixRequests K} (inv : Inv s) {i : Nat} {task : Task K} {stage : Stage}
    (there : s.tasks[i]? = some task) (further : stage.settled) (flying : ¬ task.stage.done)
    (still : ∀ lock, stage ≠ .waits lock)
    (ran : task.stage.runs ∨ task.request.names = none) : Inv (setStage s i task stage) := by
  refine move_keeps inv there (fun _ => further) (marked_set inv there fun _ => flying) ?_ ?_
  · intro lock waits
    exact absurd waits (still lock)
  · intro _ id names
    rcases ran with before | nothing
    · exact inv.ordered i task there before id names
    · cases nothing.symm.trans names

/-- The lock is free once its order's guard is dropped, and every other order of
    that name was placed already. -/
theorem acquire_keeps {s t : FixRequests K} {i : Nat} (inv : Inv s)
    (next : step s (.acquire i) = some t) : Inv t := by
  simp only [step] at next
  split at next
  · rename_i request lock there
    split at next
    · rename_i owner holder
      split at next
      · cases next
      · rename_i free
        cases next
        refine move_keeps inv there (fun _ => rfl) (marked_set inv there fun _ => by
          simp [Stage.done]) ?_ ?_
        · intro _ waits
          cases waits
        · intro _ id names j earlier _ order found places
          by_cases same : lock = j
          · subst same
            cases holder.symm.trans found
            exact released_settled free
          · exact inv.behind i _ lock there rfl id names j earlier (by simpa using same) order
              found places
    · cases next
  · cases next

theorem finish_keeps {s t : FixRequests K} {i : Nat} (inv : Inv s)
    (next : step s (.finish i) = some t) : Inv t := by
  simp only [step] at next
  split at next
  · rename_i id there
    cases next
    refine move_keeps inv there (fun _ => rfl) ?_ ?_ ?_
    · intro j order found flying other places
      rcases at_set found with ⟨_, rfl⟩ | ⟨elsewhere, old⟩
      · exact absurd rfl flying
      · have mark := inv.marked j order old flying other places
        have apart : other ≠ id := by
          rintro rfl
          have own := inv.marked i _ there (by simp [Stage.done]) other rfl
          exact elsewhere (Option.some.inj (mark.symm.trans own))
        simpa [InFlight.remove, Function.update_of_ne apart] using mark
    · intro _ waits
      cases waits
    · intro _ _ names
      cases names
  · cases next

theorem step_keeps {s t : FixRequests K} {a : Action K} (inv : Inv s)
    (ok : ¬ RepeatsInFlight s a) (next : step s a = some t) : Inv t := by
  cases a with
  | receive request => exact receive_keeps inv ok next
  | run i => exact run_keeps inv next
  | acquire i => exact acquire_keeps inv next
  | handled i =>
    simp only [step] at next
    split at next
    · rename_i id there
      cases next
      exact quiet_keeps inv there rfl (by simp [Stage.done]) (by simp) (Or.inr rfl)
    · rename_i request there
      cases next
      exact quiet_keeps inv there rfl (by simp [Stage.done]) (by simp) (Or.inl rfl)
    · cases next
  | dropGuard i =>
    simp only [step] at next
    split at next
    · rename_i id there
      cases next
      exact quiet_keeps inv there rfl (by simp [Stage.done]) (by simp) (Or.inr rfl)
    · cases next
  | finish i => exact finish_keeps inv next
  | panic i =>
    simp only [step] at next
    split at next
    · rename_i id there
      cases next
      exact quiet_keeps inv there rfl (by simp [Stage.done]) (by simp) (Or.inr rfl)
    · rename_i request there
      cases next
      exact quiet_keeps inv there rfl (by simp [Stage.done]) (by simp) (Or.inl rfl)
    · cases next

/-- As long as no new order repeats a ClOrdID in flight, cancels and status requests
    wait for the orders they name. -/
theorem requests_wait_for_their_order (as : List (Action K))
    (steps : Along step (fun s a => ¬ RepeatsInFlight s a) .start as) :
    Throughout step WaitsForItsOrder (.start : FixRequests K) as :=
  throughout_mono (fun _ => Inv.ordered)
    (throughout_along (fun _ _ _ inv ok next => step_keeps inv ok next) start_inv steps)

/-- A cancel behind its order, and the same ClOrdID once more after the order's end. -/
def cancelBehind : List (Action String) :=
  [.receive (.newOrder "c1"), .receive (.cancel "c1"), .run 1, .run 0, .handled 0, .dropGuard 0,
    .acquire 1, .finish 0, .handled 1, .receive (.newOrder "c1"), .run 2,
    .receive (.status "c1"), .run 3, .panic 2, .acquire 3, .handled 3]

theorem cancel_behind_waits : Throughout step WaitsForItsOrder .start cancelBehind :=
  requests_wait_for_their_order cancelBehind (by decide)

/-- A repeated new order takes the first one's mark, and its end removes it. -/
def repeatInFlight : List (Action String) :=
  [.receive (.newOrder "c1"), .run 0, .receive (.newOrder "c1"), .run 1, .handled 1,
    .dropGuard 1, .finish 1, .receive (.cancel "c1"), .run 2]

/-- The cancel runs while the order it names is still being placed. -/
theorem cancel_runs_before_its_order :
    ¬ Throughout step WaitsForItsOrder .start repeatInFlight := by
  intro waits
  have last := throughout_end waits _ rfl 2 ⟨.cancel "c1", .handling⟩ rfl rfl "c1" rfl
  exact absurd (last 0 (by decide) (by decide) ⟨.newOrder "c1", .placing⟩ rfl rfl) (by decide)

end OmsFixRequests
