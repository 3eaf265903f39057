import OpenOms.Colo.DeadMan
import OpenOms.Library.Downlink
import OpenOms.Library.Lists
import OpenOms.Library.Runs

/-!
One co-located strategy under kills, enables and reloads of the registry, with
its link coming and going. A kill is pushed down the link before it is stored, a
resume after its enable is stored and reloaded, and the state a connection is
sent first is read from the registry.
-/
namespace OmsColoLink
open OmsRisk OmsGuard OmsColo Downlink Lists Runs

inductive OpKind where
  | kill
  | enable
  | reload
  deriving DecidableEq, Repr

inductive Stage where
  | store
  | select
  | publish (read : Registered)
  | finish
  deriving DecidableEq, Repr

structure Op where
  kind : OpKind
  stage : Stage
  deriving DecidableEq, Repr

/-- `received` is what the strategy's end has taken off a link and not applied;
    it outlives the link. -/
structure ColoLink where
  row : Registered
  registry : Registered
  ops : List Op
  link : Option (Link ToStrategy)
  received : List ToStrategy
  deadMan : DeadMan
  deriving DecidableEq, Repr

def ColoLink.start (row : Registered) (timeout now : Nat) : ColoLink :=
  ⟨row, row, [], none, [], .new timeout now⟩

inductive Action where
  | kill
  | enable
  | reload
  | store (i : Nat)
  | select (i : Nat)
  | publish (i : Nat)
  | finish (i : Nat)
  | fail (i : Nat)
  | connect
  | sendState (positions : List Position)
  | tell (msg : ToStrategy)
  | drop
  | receive
  | apply (now : Nat)
  deriving DecidableEq, Repr

def push (s : ColoLink) (msg : ToStrategy) : ColoLink :=
  { s with link := Downlink.push s.link msg }

def setStage (s : ColoLink) (i : Nat) (op : Op) (stage : Stage) : ColoLink :=
  { s with ops := s.ops.set i { op with stage := stage } }

def OpKind.update (kind : OpKind) (row : Registered) : Registered :=
  match kind with
  | .kill => setState row .halted false
  | .enable => setState row .active true
  | .reload => row

def step (s : ColoLink) : Action → Option ColoLink
  | .kill =>
    let told := (announceKill (some s.registry.mode)).elim s (push s)
    some { told with ops := s.ops ++ [⟨.kill, .store⟩] }
  | .enable => some { s with ops := s.ops ++ [⟨.enable, .store⟩] }
  | .reload => some { s with ops := s.ops ++ [⟨.reload, .select⟩] }
  | .store i =>
    match s.ops[i]? with
    | some ⟨kind, .store⟩ =>
      some { setStage s i ⟨kind, .store⟩ .select with row := kind.update s.row }
    | _ => none
  | .select i =>
    match s.ops[i]? with
    | some ⟨kind, .select⟩ => some (setStage s i ⟨kind, .select⟩ (.publish s.row))
    | _ => none
  | .publish i =>
    match s.ops[i]? with
    | some ⟨kind, .publish read⟩ =>
      some { setStage s i ⟨kind, .publish read⟩ .finish with registry := read }
    | _ => none
  | .finish i =>
    match s.ops[i]? with
    | some ⟨kind, .finish⟩ =>
      let resumes := kind = .enable ∧ s.registry.mode = .colocated
      let told := if resumes then push s .resume else s
      some { told with ops := s.ops.eraseIdx i }
    | _ => none
  | .fail i => if i < s.ops.length then some { s with ops := s.ops.eraseIdx i } else none
  | .connect =>
    if s.registry.mode = .colocated then some { s with link := some ⟨false, []⟩ } else none
  | .sendState positions =>
    match s.link with
    | some ⟨false, queue⟩ =>
      let first := initialState (some s.registry) positions
      some { s with link := some ⟨true, first :: queue⟩ }
    | _ => none
  | .tell msg => if msg.tells = none then some (push s msg) else none
  | .drop => some { s with link := none }
  | .receive =>
    match s.link with
    | some ⟨true, msg :: queue⟩ =>
      some { s with link := some ⟨true, queue⟩, received := s.received ++ [msg] }
    | _ => none
  | .apply now =>
    match s.received with
    | msg :: received =>
      some { s with received := received, deadMan := (s.deadMan.heard now).apply msg }
    | [] => none

def HaltStands (s : ColoLink) : Prop := s.row.state = .halted ∨ ⟨.kill, .store⟩ ∈ s.ops

instance (s : ColoLink) : Decidable (HaltStands s) := by
  unfold HaltStands
  infer_instance

/-- While a halt stands, an enable pushes its resume down a link, or a connection
    down which no kill or resume has gone is sent an active state. -/
def Misinforms (s : ColoLink) (a : Action) : Prop :=
  HaltStands s ∧
    match a with
    | .finish i => s.ops[i]? = some ⟨.enable, .finish⟩ ∧ s.link ≠ none
    | .sendState _ => s.registry.state ≠ .halted ∧
        ∀ link ∈ s.link, ∀ msg ∈ link.queue, msg.tells = none
    | _ => False

instance (s : ColoLink) (a : Action) : Decidable (Misinforms s a) := by
  unfold Misinforms
  split <;> infer_instance

/-- Every operation has returned, and the link's strategy has applied all it was sent. -/
def Settled (s : ColoLink) : Prop :=
  s.ops = [] ∧ s.link = some ⟨true, []⟩ ∧ s.received = []

instance (s : ColoLink) : Decidable (Settled s) := by
  unfold Settled
  infer_instance

/-- Once settled, a strategy whose stored state is HALTED does not trade. -/
def Agrees (s : ColoLink) : Prop :=
  Settled s → s.row.state = .halted → ∀ now, s.deadMan.mayTrade now = false

/-- What the linked strategy will have been told last, once it has applied
    everything on its way; nothing before the link's state counts. -/
def toldActive (s : ColoLink) : Bool :=
  told ToStrategy.tells false s.deadMan.cleared s.link s.received

/-- While a halt stands, nothing on its way to the strategy ends in leave to trade. -/
structure Inv (mode : Mode) (s : ColoLink) : Prop where
  stopped : HaltStands s → toldActive s = false
  linked : s.link ≠ none → mode = .colocated
  rowMode : s.row.mode = mode
  registryMode : s.registry.mode = mode
  readMode : ∀ op ∈ s.ops, ∀ read, op.stage = .publish read → read.mode = mode

theorem start_inv (row : Registered) (timeout now : Nat) :
    Inv row.mode (.start row timeout now) := by
  refine ⟨fun _ => rfl, ?_, rfl, rfl, ?_⟩
  · intro linked
    exact absurd rfl linked
  · intro op member
    cases member

@[simp] theorem update_mode (kind : OpKind) (row : Registered) :
    (kind.update row).mode = row.mode := by
  cases kind <;> rfl

theorem told_frame {s t : ColoLink} (link : t.link = s.link) (received : t.received = s.received)
    (deadMan : t.deadMan = s.deadMan) : toldActive t = toldActive s := by
  simp [toldActive, link, received, deadMan]

theorem quiet_keeps {mode : Mode} {s t : ColoLink} (inv : Inv mode s) (link : t.link = s.link)
    (received : t.received = s.received) (deadMan : t.deadMan = s.deadMan)
    (halts : HaltStands t → HaltStands s) (row : t.row.mode = mode)
    (registry : t.registry.mode = mode)
    (read : ∀ op ∈ t.ops, ∀ read, op.stage = .publish read → read.mode = mode) : Inv mode t := by
  refine ⟨fun stands => ?_, fun up => inv.linked (link ▸ up), row, registry, read⟩
  rw [told_frame link received deadMan]
  exact inv.stopped (halts stands)

theorem stored_halts {ops : List Op} {i : Nat} {op : Op} (past : op.stage ≠ .store)
    (stands : ⟨.kill, .store⟩ ∈ ops.set i op) : ⟨.kill, .store⟩ ∈ ops := by
  rcases List.mem_or_eq_of_mem_set stands with old | new
  · exact old
  · exact absurd (new ▸ rfl) past

theorem set_read_mode {mode : Mode} {ops : List Op} {i : Nat} {op : Op}
    (held : ∀ op ∈ ops, ∀ read, op.stage = .publish read → read.mode = mode)
    (new : ∀ read, op.stage = .publish read → read.mode = mode) :
    ∀ other ∈ ops.set i op, ∀ read, other.stage = .publish read → read.mode = mode :=
  forall_mem_set held new

theorem store_halts {s : ColoLink} {i : Nat} {kind : OpKind}
    (there : s.ops[i]? = some ⟨kind, .store⟩)
    (stands : (kind.update s.row).state = .halted ∨
      ⟨.kill, .store⟩ ∈ s.ops.set i ⟨kind, .select⟩) : HaltStands s := by
  rcases stands with halted | announced
  · cases kind with
    | kill => exact Or.inr (List.mem_of_getElem? there)
    | enable => simp [OpKind.update, setState] at halted
    | reload => exact Or.inl halted
  · exact Or.inr (stored_halts (by simp) announced)

theorem kill_keeps {mode : Mode} {s : ColoLink} (inv : Inv mode s) :
    Inv mode { (announceKill (some s.registry.mode)).elim s (push s) with
      ops := s.ops ++ [⟨.kill, .store⟩] } := by
  have read : ∀ op ∈ s.ops ++ [⟨.kill, .store⟩], ∀ read, op.stage = .publish read →
      read.mode = mode := by
    intro op member
    rcases List.mem_append.mp member with old | new
    · exact inv.readMode op old
    · cases List.mem_singleton.mp new
      intro read reads
      cases reads
  by_cases colocated : s.registry.mode = .colocated
  · simp only [announceKill, colocated, if_true, Option.elim_some]
    refine ⟨fun _ => ?_, ?_, inv.rowMode, inv.registryMode, read⟩
    · refine (told_push s.link s.received .kill).trans ?_
      simp [ToStrategy.tells]
    · exact fun _ => inv.registryMode ▸ colocated
  · have down : s.link = none := by
      by_contra up
      exact colocated (inv.registryMode.trans (inv.linked up))
    simp only [announceKill, Option.some.injEq, colocated, if_false, Option.elim_none]
    refine ⟨fun _ => ?_, inv.linked, inv.rowMode, inv.registryMode, read⟩
    simp [toldActive, told, down]

theorem tell_keeps {mode : Mode} {s : ColoLink} (inv : Inv mode s) {msg : ToStrategy}
    (halts : HaltStands s → s.link ≠ none → msg.tells ≠ some true) : Inv mode (push s msg) := by
  refine ⟨fun stands => ?_, fun up => inv.linked ?_, inv.rowMode, inv.registryMode, inv.readMode⟩
  · refine (told_push s.link s.received msg).trans ?_
    split
    · rename_i linked
      have stopped := inv.stopped stands
      cases word : msg.tells with
      | none => exact stopped
      | some told =>
        cases told with
        | false => rfl
        | true => exact absurd word (halts stands (Option.isSome_iff_ne_none.mp linked))
    · rfl
  · intro down
    exact up (by simp [push, Downlink.push, down])

theorem enter_keeps {mode : Mode} {s : ColoLink} (inv : Inv mode s) {op : Op}
    (quiet : op ≠ ⟨.kill, .store⟩) (fresh : ∀ read, op.stage ≠ .publish read) :
    Inv mode { s with ops := s.ops ++ [op] } := by
  refine quiet_keeps inv rfl rfl rfl ?_ inv.rowMode inv.registryMode ?_
  · intro stands
    simpa [HaltStands, Ne.symm quiet] using stands
  · intro other member
    rcases List.mem_append.mp member with old | new
    · exact inv.readMode other old
    · cases List.mem_singleton.mp new
      exact fun read reads => absurd reads (fresh read)

theorem erase_keeps {mode : Mode} {s : ColoLink} (inv : Inv mode s) (i : Nat) :
    Inv mode { s with ops := s.ops.eraseIdx i } := by
  refine quiet_keeps inv rfl rfl rfl ?_ inv.rowMode inv.registryMode ?_
  · exact fun stands => stands.imp_right List.mem_of_mem_eraseIdx
  · exact fun op member => inv.readMode op (List.mem_of_mem_eraseIdx member)

/-- A state sent while a halt stands is inactive, or a later push has the last word. -/
theorem send_state_keeps {mode : Mode} {s : ColoLink} (inv : Inv mode s)
    {queue : List ToStrategy} (up : s.link = some ⟨false, queue⟩) (positions : List Position)
    (ok : ¬ Misinforms s (.sendState positions)) :
    Inv mode { s with
      link := some ⟨true, initialState (some s.registry) positions :: queue⟩ } := by
  refine ⟨fun stands => ?_, fun _ => inv.linked (by simp [up]), inv.rowMode, inv.registryMode,
    inv.readMode⟩
  have stopped := inv.stopped stands
  rw [toldActive, up] at stopped
  rcases told_first (rfl : (initialState (some s.registry) positions).tells.isSome = true)
    s.received with ⟨silent, first⟩ | ⟨_, forgotten⟩
  · refine Bool.eq_false_iff.mpr fun active => ok ⟨stands, ?_, ?_⟩
    · have sent := first.symm.trans (congrArg some active)
      simpa [initialState, ToStrategy.tells] using sent
    · intro link found
      cases up.symm.trans found
      exact silent
  · exact forgotten.trans stopped

theorem receive_keeps {mode : Mode} {s : ColoLink} {msg : ToStrategy} {queue : List ToStrategy}
    (inv : Inv mode s) (up : s.link = some ⟨true, msg :: queue⟩) :
    Inv mode { s with link := some ⟨true, queue⟩, received := s.received ++ [msg] } := by
  refine ⟨fun stands => ?_, fun _ => inv.linked (by simp [up]), inv.rowMode, inv.registryMode,
    inv.readMode⟩
  have stopped := inv.stopped stands
  rw [toldActive, up] at stopped
  exact (told_received msg queue s.received).trans stopped

theorem apply_keeps {mode : Mode} {s : ColoLink} {msg : ToStrategy} {received : List ToStrategy}
    (inv : Inv mode s) (waiting : s.received = msg :: received) (now : Nat) :
    Inv mode { s with received, deadMan := (s.deadMan.heard now).apply msg } := by
  refine ⟨fun stands => ?_, inv.linked, inv.rowMode, inv.registryMode, inv.readMode⟩
  have stopped := inv.stopped stands
  rw [toldActive, waiting, ← told_applied] at stopped
  rw [toldActive, apply_cleared, heard_cleared]
  exact stopped

theorem step_keeps {mode : Mode} {s t : ColoLink} {a : Action} (inv : Inv mode s)
    (ok : ¬ Misinforms s a) (next : step s a = some t) : Inv mode t := by
  cases a with
  | kill =>
    cases next
    exact kill_keeps inv
  | enable | reload =>
    cases next
    exact enter_keeps inv (by simp) (by simp)
  | store i =>
    simp only [step] at next
    split at next
    · rename_i kind there
      cases next
      refine quiet_keeps inv rfl rfl rfl (store_halts there) ?_ inv.registryMode ?_
      · exact (update_mode kind s.row).trans inv.rowMode
      · refine set_read_mode inv.readMode ?_
        intro read reads
        cases reads
    · cases next
  | select i =>
    simp only [step] at next
    split at next
    · cases next
      refine quiet_keeps inv rfl rfl rfl ?_ inv.rowMode inv.registryMode ?_
      · exact fun stands => stands.imp_right (stored_halts (by simp))
      · refine set_read_mode inv.readMode ?_
        intro read reads
        cases reads
        exact inv.rowMode
    · cases next
  | publish i =>
    simp only [step] at next
    split at next
    · rename_i kind read there
      cases next
      refine quiet_keeps inv rfl rfl rfl ?_ inv.rowMode ?_ ?_
      · exact fun stands => stands.imp_right (stored_halts (by simp))
      · exact inv.readMode _ (List.mem_of_getElem? there) read rfl
      · refine set_read_mode inv.readMode ?_
        intro read reads
        cases reads
    · cases next
  | finish i =>
    simp only [step] at next
    split at next
    · rename_i kind there
      cases next
      split
      · rename_i resumes
        obtain ⟨rfl, _⟩ := resumes
        refine erase_keeps (tell_keeps inv ?_) i
        exact fun stands linked => absurd ⟨stands, there, linked⟩ ok
      · exact erase_keeps inv i
    · cases next
  | fail i =>
    simp only [step] at next
    split at next
    · cases next
      exact erase_keeps inv i
    · cases next
  | connect =>
    simp only [step] at next
    split at next
    · rename_i colocated
      cases next
      refine ⟨fun _ => rfl, fun _ => inv.registryMode ▸ colocated, inv.rowMode, inv.registryMode,
        inv.readMode⟩
    · cases next
  | sendState positions =>
    simp only [step] at next
    split at next
    · rename_i queue up
      cases next
      exact send_state_keeps inv up positions ok
    · cases next
  | tell msg =>
    simp only [step] at next
    split at next
    · rename_i silent
      cases next
      exact tell_keeps inv (by simp [silent])
    · cases next
  | drop =>
    cases next
    exact ⟨fun _ => rfl, fun up => absurd rfl up, inv.rowMode, inv.registryMode, inv.readMode⟩
  | receive =>
    simp only [step] at next
    split at next
    · rename_i msg queue up
      cases next
      exact receive_keeps inv up
    · cases next
  | apply now =>
    simp only [step] at next
    split at next
    · rename_i msg received waiting
      cases next
      exact apply_keeps inv waiting now
    · cases next

theorem inv_agrees {mode : Mode} {s : ColoLink} (inv : Inv mode s) : Agrees s := by
  rintro ⟨_, up, applied⟩ halted now
  have stopped := inv.stopped (Or.inl halted)
  simp only [toldActive, told, up, applied, List.append_nil, last_nil] at stopped
  by_contra trades
  have cleared := may_trade_cleared (Bool.not_eq_false _ ▸ trades)
  exact absurd stopped (by simp [cleared])

theorem not_agrees {s : ColoLink} {as : List Action} (now : Nat)
    (trades : ∃ t ∈ run step s as,
      Settled t ∧ t.row.state = .halted ∧ t.deadMan.mayTrade now = true) :
    ¬ Throughout step Agrees s as := by
  intro agrees
  obtain ⟨t, ends, settled, halted, trading⟩ := trades
  have stopped := throughout_end agrees t ends settled halted now
  exact absurd trading (by simp [stopped])

/-- As long as no step misinforms the strategy, it agrees with its stored state
    whenever everything has settled. -/
theorem halted_strategy_stops (row : Registered) (timeout now : Nat) (as : List Action)
    (steps : Along step (fun s a => ¬ Misinforms s a) (.start row timeout now) as) :
    Throughout step Agrees (.start row timeout now) as :=
  throughout_mono (fun _ => inv_agrees)
    (throughout_along (fun _ _ _ inv ok next => step_keeps inv ok next)
      (start_inv row timeout now) steps)

def maker : Registered :=
  ⟨⟨"mm1", "u1", .active, ⟨none, none, none, none⟩, some 5⟩, .colocated, true, 5, some 20, 1⟩

def delivery (now : Nat) : List Action := [.receive, .apply now]

def operation : List Action := [.store 0, .select 0, .publish 0, .finish 0]

/-- Killed over a link and enabled again, then killed once more. -/
def killTwice : List Action :=
  [.connect, .sendState []] ++ delivery 1 ++ [.kill] ++ operation ++ delivery 2 ++ [.enable] ++
    operation ++ delivery 3 ++ [.tell .heartbeat] ++ delivery 4 ++
    [.kill] ++ operation ++ delivery 5

theorem kill_twice_stops :
    (∃ t ∈ run step (.start maker 5000 0) killTwice, Settled t ∧ t.row.state = .halted) ∧
      Throughout step Agrees (.start maker 5000 0) killTwice :=
  ⟨by decide +kernel, halted_strategy_stops maker 5000 0 killTwice (by decide +kernel)⟩

/-- The strategy connects between a kill's push and its update. -/
def connectMidKill : List Action :=
  [.kill, .connect, .sendState []] ++ operation ++ delivery 1

/-- An enable that has stored and reloaded before a kill pushes its resume after it. -/
def enableOverKill : List Action :=
  [.connect, .sendState []] ++ delivery 1 ++
    [.enable, .store 0, .select 0, .publish 0, .kill, .store 1, .select 1, .publish 1, .finish 1,
      .finish 0] ++ delivery 2 ++ delivery 3

/-- An enable's reload read the row before a kill and replaces the registry after it. -/
def staleRegistry : List Action :=
  [.enable, .store 0, .select 0, .kill, .store 1, .select 1, .publish 1, .finish 1, .publish 0,
    .finish 0, .connect, .sendState []] ++ delivery 1

/-- The strategy is told to trade though HALTED is stored, by a state sent between a
    kill's push and its update, by an overlapping enable's resume, or by a registry
    an overlapping reload left behind. -/
theorem halted_strategy_trades :
    ¬ Throughout step Agrees (.start maker 5000 0) connectMidKill ∧
      ¬ Throughout step Agrees (.start maker 5000 0) enableOverKill ∧
      ¬ Throughout step Agrees (.start maker 5000 0) staleRegistry := by
  refine ⟨not_agrees 2 ?_, not_agrees 4 ?_, not_agrees 2 ?_⟩
  · decide +kernel
  · decide +kernel
  · decide +kernel

end OmsColoLink
