import OpenOms.Library.Runs
import OpenOms.OrderWrites

/-!
Any number of writers on one order. Each reads the row at some moment and runs
its transaction at a later one, with any other commits in between; a transaction
is atomic. The row is compared with the fold of the log after every step.
-/
namespace OmsOrderWriters
open OmsOrders OmsAggregate OmsOrderStore OmsExecution OmsOrderEntry OmsOrderWrites Runs

structure Writers where
  db : OrderDb
  inFlight : List (Writer × OrderRow)
  deriving DecidableEq, Repr

def Writers.start : Writers := ⟨.empty, []⟩

/-- `read` is a writer's SELECT, `write i` the transaction of the `i`-th writer
    in flight, `drop i` that writer ended by a storage error. A retry after a
    conflict is a new `read`. -/
inductive Action where
  | submit (cmd : SubmitOrder) (metadata : EventMetadata) (brokerConnectionCode : String)
      (createdAt : Nat)
  | read (writer : Writer)
  | write (i : Nat)
  | drop (i : Nat)
  deriving DecidableEq, Repr

def step (s : Writers) : Action → Option Writers
  | .submit cmd metadata brokerConnectionCode createdAt =>
    match submitTx cmd metadata brokerConnectionCode createdAt s.db with
    | .ok committed => some { s with db := committed }
    | .error _ => some s
  | .read writer =>
    match readRow writer s.db.row with
    | some snapshot => some { s with inFlight := s.inFlight ++ [(writer, snapshot)] }
    | none => some s
  | .write i =>
    match s.inFlight[i]? with
    | some (writer, snapshot) =>
      some { db := perform writer snapshot s.db, inFlight := s.inFlight.eraseIdx i }
    | none => none
  | .drop i => some { s with inFlight := s.inFlight.eraseIdx i }

structure Columns where
  status : OrderStatus
  originalQty : ℚ
  leavesQty : ℚ
  cumQty : ℚ
  avgPx : Option ℚ
  resumeToStatus : Option OrderStatus
  version : Nat
  deriving DecidableEq, Repr

def columns (s : OrderAggregateState) : Columns :=
  ⟨s.status, s.originalQty, s.leavesQty, s.cumQty, s.avgPx, s.resumeToStatus, s.version⟩

/-- The row shows what folding the log from empty shows. -/
def RowEqualsFold (db : OrderDb) : Prop :=
  (OrderAggregate.rehydrate (events db)).map (fun aggregate => aggregate.state.map columns) =
    .ok (db.row.map fun row => columns row.toOrderAggregateState)

instance (db : OrderDb) : Decidable (RowEqualsFold db) := by
  unfold RowEqualsFold
  infer_instance

/-- The step at which the local branch of cancel commits: its UPDATE finds the
    row at the version it read. -/
def CommitsLocalCancel (s : Writers) (a : Action) : Prop :=
  ∃ i reason metadata snapshot row, a = .write i ∧
    s.inFlight[i]? = some (.cancel reason metadata, snapshot) ∧
    s.db.row = some row ∧ row.version = snapshot.version

structure Agrees (s : Writers) : Prop where
  num : Numbered s.db
  lively : ∀ row, s.db.row = some row → Lively row.toOrderAggregateState
  folds : ∀ row, s.db.row = some row → FoldsTo s.db row.toOrderAggregateState
  reads : ∀ entry ∈ s.inFlight, SnapshotOf s.db entry.2
  opens : ∀ reason metadata snapshot, (Writer.cancel reason metadata, snapshot) ∈ s.inFlight →
    snapshot.status.isTerminal = false

theorem start_agrees : Agrees .start where
  num := ⟨rfl, (by intro _ missing; cases missing), fun _ => rfl⟩
  lively := by intro _ missing; cases missing
  folds := by intro _ missing; cases missing
  reads := by intro _ missing; cases missing
  opens := by intro _ _ _ missing; cases missing

theorem agrees_row_equals_fold {s : Writers} (agrees : Agrees s) : RowEqualsFold s.db := by
  unfold RowEqualsFold
  cases stored : s.db.row with
  | none =>
    rw [events, agrees.num.noRow stored]
    rfl
  | some row =>
    rw [agrees.folds row stored]
    rfl

theorem write_agrees {s : Writers} {db' : OrderDb} {kind : WriteKind}
    {left : List (Writer × OrderRow)} (agrees : Agrees s) (write : Write s.db kind db')
    (kept : kind ≠ .localCancel) (fewer : ∀ entry ∈ left, entry ∈ s.inFlight) :
    Agrees ⟨db', left⟩ where
  num := write_numbered agrees.num write
  lively := write_lively write agrees.lively
  folds := write_folds write kept agrees.folds
  reads entry member := write_snapshot (agrees.reads entry (fewer entry member)) write
  opens reason metadata snapshot member :=
    agrees.opens reason metadata snapshot (fewer _ member)

theorem fewer_agrees {s : Writers} {left : List (Writer × OrderRow)} (agrees : Agrees s)
    (fewer : ∀ entry ∈ left, entry ∈ s.inFlight) : Agrees ⟨s.db, left⟩ :=
  ⟨agrees.num, agrees.lively, agrees.folds,
    fun entry member => agrees.reads entry (fewer entry member),
    fun reason metadata snapshot member => agrees.opens reason metadata snapshot (fewer _ member)⟩

theorem step_agrees {s t : Writers} {a : Action} (agrees : Agrees s)
    (kept : ¬ CommitsLocalCancel s a) (next : step s a = some t) : Agrees t := by
  cases a with
  | submit cmd metadata code createdAt =>
    simp only [step] at next
    split at next
    · rename_i committed inserted
      cases next
      exact write_agrees agrees (submit_tx_writes agrees.num inserted) nofun fun _ member => member
    · cases next
      exact agrees
  | read writer =>
    simp only [step] at next
    split at next
    · rename_i snapshot read
      obtain ⟨stored, isOpen⟩ := read_row_snapshot read
      cases next
      refine ⟨agrees.num, agrees.lively, agrees.folds, ?_, ?_⟩
      · intro entry member
        rcases List.mem_append.mp member with old | new
        · exact agrees.reads entry old
        · cases List.mem_singleton.mp new
          exact ⟨snapshot, stored, le_refl _, fun _ => rfl⟩
      · intro reason metadata seen member
        rcases List.mem_append.mp member with old | new
        · exact agrees.opens reason metadata seen old
        · cases List.mem_singleton.mp new
          exact isOpen reason metadata rfl
    · cases next
      exact agrees
  | write i =>
    simp only [step] at next
    split at next
    · rename_i writer snapshot there
      cases next
      have fewer : ∀ entry ∈ s.inFlight.eraseIdx i, entry ∈ s.inFlight :=
        fun entry member => List.mem_of_mem_eraseIdx member
      have member := List.mem_of_getElem? there
      rcases perform_writes agrees.num agrees.lively (agrees.reads _ member)
          (fun reason metadata same => agrees.opens reason metadata snapshot (same ▸ member)) with
        same | ⟨kind, makes, write⟩
      · rw [same]
        exact fewer_agrees agrees fewer
      · refine write_agrees agrees write ?_ fewer
        rintro rfl
        obtain ⟨reason, metadata, row, rfl, stored, version⟩ := makes_local_cancel makes
        exact kept ⟨i, reason, metadata, snapshot, row, rfl, there, stored, version⟩
    · cases next
  | drop i =>
    cases next
    exact fewer_agrees agrees fun entry member => List.mem_of_mem_eraseIdx member

theorem local_cancel_parts {s : Writers} {a : Action} (agrees : Agrees s)
    (commits : CommitsLocalCancel s a) : ∃ t, step s a = some t ∧ ¬ RowEqualsFold t.db := by
  obtain ⟨i, reason, metadata, snapshot, row, rfl, there, stored, version⟩ := commits
  have member := List.mem_of_getElem? there
  have isOpen := agrees.opens reason metadata snapshot member
  refine ⟨⟨perform (.cancel reason metadata) snapshot s.db, s.inFlight.eraseIdx i⟩,
    by simp only [step, there], ?_⟩
  obtain ⟨event, yields, attempt⟩ :=
    cancel_locally_open isOpen reason metadata agrees.num stored
  have won : s.db.log.length = snapshot.version :=
    (agrees.num.rowVersion row stored).symm.trans version
  rw [if_pos won] at attempt
  obtain ⟨found, event', there', _, same, yields', result⟩ :=
    cancel_locally_cases agrees.num (agrees.reads _ member) isOpen attempt
  cases stored.symm.trans there'
  have rowOpen : row.status.isTerminal = false := by rw [← same]; exact isOpen
  have write : Write s.db .localCancel (perform (.cancel reason metadata) snapshot s.db) := by
    simp only [perform, attempt, result]
    exact .canceled row reason event' stored rowOpen yields'
  obtain ⟨old, found', _, row', folds⟩ := local_cancel_folds write agrees.folds
  cases stored.symm.trans found'
  have lively := agrees.lively row stored
  have left : 0 < row.leavesQty := by
    have room := lively.room rowOpen
    rw [lively.leaves rowOpen]
    linarith
  intro matching
  rw [RowEqualsFold, folds, row'] at matching
  have leaves := congrArg Columns.leavesQty (Option.some.inj (Except.ok.inj matching))
  simp only [columns, locallyCanceledRow, cancelState] at leaves
  linarith

/-- The row shows the fold of its log after every step of a history exactly when
    no local cancel commits in it. -/
theorem row_equals_fold_iff_no_local_cancel (as : List Action) :
    Throughout step (fun s => RowEqualsFold s.db) .start as ↔
      Along step (fun s a => ¬ CommitsLocalCancel s a) .start as :=
  throughout_iff_along (fun _ _ _ agrees kept next => step_agrees agrees kept next)
    (fun _ agrees => agrees_row_equals_fold agrees)
    (fun _ _ agrees commits => local_cancel_parts agrees (not_not.mp commits)) start_agrees

/-- A submit whose route is not recorded yet, cancelled locally: the row keeps
    ten on its books, the log folds to none. -/
theorem canceled_row_parts_from_fold :
    ¬ ∀ as, Throughout step (fun s => RowEqualsFold s.db) .start as := by
  intro always
  have last := throughout_end (always [.submit buyTen stamp "paper" 0,
    .read (.cancel none stamp), .write 0])
  revert last
  decide +kernel

end OmsOrderWriters
