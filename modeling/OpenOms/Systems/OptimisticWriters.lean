import OpenOms.Library.ReadCommitted
import OpenOms.OrderDecisions

/-!
The writers of one order, statement by statement: each reads the row, decides,
updates the row on the version it read, books its fills on the position and
appends its event, all in one transaction under row and stream locks. Two of the
paths do not look at what their UPDATE hit; the append is where they lose.
-/
namespace OmsOptimisticWriters
open OmsOrders OmsLifecycle OmsAggregate OmsPositions OmsOrderStore OmsExecution OmsOrderEntry
open OmsOrderWrites OmsOrderDecisions Lists Runs

/-- A transaction between two of its statements. `hit` is what its UPDATE found,
    `position` its own uncommitted value, `loaded` what its last load returned. -/
structure Tx where
  writer : Writer
  snapshot : OrderRow
  plan : Plan
  hit : Option Bool
  fills : List Execution
  loaded : Option (Option PositionMath)
  position : Option PositionMath
  holdsPosition : Bool
  appended : Bool

def Tx.start (writer : Writer) (snapshot : OrderRow) (plan : Plan) : Tx :=
  ⟨writer, snapshot, plan, none, plan.fills, none, none, false, false⟩

inductive Commit where
  | submit (cmd : SubmitOrder) (metadata : EventMetadata) (brokerConnectionCode : String)
      (createdAt : Nat)
  | write (writer : Writer) (snapshot : OrderRow)
  | recordId (externalOrderId : String)
  deriving DecidableEq, Repr

/-- `records` are the route steps that only put the venue's id on record. -/
structure Writers where
  db : OrderDb
  txs : List Tx
  records : List String
  committed : List Commit

def Writers.start : Writers := ⟨.empty, [], [], []⟩

inductive Action where
  | submit (cmd : SubmitOrder) (metadata : EventMetadata) (brokerConnectionCode : String)
      (createdAt : Nat)
  | read (writer : Writer)
  | update (i : Nat)
  | load (i : Nat)
  | upsert (i : Nat)
  | append (i : Nat)
  | commit (i : Nat)
  | abort (i : Nat)
  | record (i : Nat)
  | forget (i : Nat)
  deriving DecidableEq, Repr

/-- Another transaction holds the order's row, its position's row, its stream. -/
def rowLocked (s : Writers) (i : Nat) : Bool :=
  (s.txs.eraseIdx i).any fun tx => tx.hit = some true

def positionLocked (s : Writers) (i : Nat) : Bool :=
  (s.txs.eraseIdx i).any fun tx => tx.holdsPosition

def streamLocked (s : Writers) (i : Nat) : Bool :=
  (s.txs.eraseIdx i).any fun tx => tx.appended

/-- The UPDATE waits for the row only where its version still matches. -/
def stepUpdate (s : Writers) (i : Nat) (tx : Tx) (row : OrderRow) : Option Writers :=
  if row.version = tx.snapshot.version then
    if rowLocked s i then none
    else some { s with txs := s.txs.set i { tx with hit := some true } }
  else if tx.plan.mustHit then some { s with txs := s.txs.eraseIdx i }
  else some { s with txs := s.txs.set i { tx with hit := some false } }

def stepLoad (s : Writers) (i : Nat) (tx : Tx) : Option Writers :=
  match tx.position, s.db.position with
  | some p, _ => some { s with txs := s.txs.set i { tx with loaded := some (some p) } }
  | none, none => some { s with txs := s.txs.set i { tx with loaded := some none } }
  | none, some p =>
    if positionLocked s i then none
    else
      some { s with
        txs := s.txs.set i { tx with loaded := some (some p), holdsPosition := true } }

def Tx.row (tx : Tx) (db : OrderDb) : Option OrderRow :=
  if tx.hit = some true then db.row.map tx.plan.columns else db.row

def Tx.commit (tx : Tx) (db : OrderDb) : OrderDb :=
  ⟨tx.row db, db.log ++ numbered tx.snapshot.version tx.plan.events, tx.position.or db.position⟩

def step (s : Writers) : Action → Option Writers
  | .submit cmd metadata brokerConnectionCode createdAt =>
    match submitTx cmd metadata brokerConnectionCode createdAt s.db with
    | .error _ => some s
    | .ok inserted =>
      some { s with
        db := inserted
        committed := s.committed ++ [.submit cmd metadata brokerConnectionCode createdAt] }
  | .read writer =>
    match readRow writer s.db.row with
    | none => some s
    | some snapshot =>
      match decideWrite writer snapshot with
      | .nothing => some s
      | .recordId externalOrderId => some { s with records := s.records ++ [externalOrderId] }
      | .write plan => some { s with txs := s.txs ++ [.start writer snapshot plan] }
  | .update i =>
    match s.txs[i]?, s.db.row with
    | some tx, some row => if tx.hit = none then stepUpdate s i tx row else none
    | _, _ => none
  | .load i =>
    match s.txs[i]? with
    | none => none
    | some tx =>
      if tx.hit = none ∨ tx.fills = [] ∨ tx.loaded.isSome then none else stepLoad s i tx
  | .upsert i =>
    match s.txs[i]? with
    | none => none
    | some tx =>
      match tx.fills, tx.loaded with
      | fill :: fills, some row =>
        if positionLocked s i then none
        else
          let p := (row.getD .flat).applyFill tx.plan.side fill.qty fill.price
          some { s with
            txs := s.txs.set i { tx with fills, loaded := none, position := some p
                                         holdsPosition := true } }
      | _, _ => none
  | .append i =>
    match s.txs[i]? with
    | none => none
    | some tx =>
      if tx.hit = none ∨ tx.fills ≠ [] ∨ tx.appended ∨ streamLocked s i then none
      else
        match appendEventsInTx s.db tx.snapshot.version tx.plan.events with
        | .error _ => some { s with txs := s.txs.eraseIdx i }
        | .ok _ => some { s with txs := s.txs.set i { tx with appended := true } }
  | .commit i =>
    match s.txs[i]? with
    | none => none
    | some tx =>
      if tx.appended then
        some { s with
          db := tx.commit s.db
          txs := s.txs.eraseIdx i
          committed := s.committed ++ [.write tx.writer tx.snapshot] }
      else none
  | .abort i => some { s with txs := s.txs.eraseIdx i }
  | .record i =>
    match s.records[i]?, s.db.row with
    | some externalOrderId, some row =>
      -- `external_order_id IS NULL` matches, and then the row has to be free.
      if row.externalOrderId = none ∧ s.txs.any (fun tx => tx.hit = some true) then none
      else
        some { s with
          db := recordExternalId s.db externalOrderId
          records := s.records.eraseIdx i
          committed := s.committed ++ [.recordId externalOrderId] }
    | _, _ => none
  | .forget i => some { s with records := s.records.eraseIdx i }

inductive ValidLog : List OrderEventRecord → Prop where
  | empty : ValidLog []
  | append {log : List OrderEventRecord} {aggregate : OrderAggregate} {command : OrderCommand}
      {metadata : EventMetadata} {event : OrderDomainEvent} (before : ValidLog log)
      (folds : OrderAggregate.rehydrate (log.map (·.event)) = .ok aggregate)
      (decided : aggregate.decide command metadata = .ok [event]) :
      ValidLog (log ++ [⟨log.length + 1, event⟩])

/-- The database the commits make alone, one after the other, each writer on the
    row at the version it read. -/
inductive Made : List Commit → OrderDb → Prop where
  | start : Made [] .empty
  | submit {commits : List Commit} {db db' : OrderDb} {cmd : SubmitOrder}
      {metadata : EventMetadata} {code : String} {createdAt : Nat} (before : Made commits db)
      (inserted : submitTx cmd metadata code createdAt db = .ok db') :
      Made (commits ++ [.submit cmd metadata code createdAt]) db'
  | write {commits : List Commit} {db : OrderDb} {writer : Writer} {snapshot : OrderRow}
      (before : Made commits db) (won : Current db snapshot) :
      Made (commits ++ [.write writer snapshot]) (perform writer snapshot db)
  | recordId {commits : List Commit} {db : OrderDb} (before : Made commits db)
      (externalOrderId : String) :
      Made (commits ++ [.recordId externalOrderId]) (recordExternalId db externalOrderId)

/-- What every state of a run shows: versions 1..n, each event decided, and row,
    log and position made by the writers that have committed and no other. -/
structure Coherent (s : Writers) : Prop where
  versions : s.db.log.map (·.version) = List.range' 1 s.db.log.length
  valid : ValidLog s.db.log
  made : Made s.committed s.db

/-- A step that commits nothing leaves row, log and position. -/
def LeavesDb (s : Writers) (a : Action) : Prop :=
  ∀ t ∈ step s a, t.committed = s.committed → t.db = s.db

/-- What a transaction in flight has and relies on. Only the holder of the row
    lock has booked anything that will be kept. -/
structure Sound (db : OrderDb) (tx : Tx) : Prop where
  read : SnapshotOf db tx.snapshot
  decides : decideWrite tx.writer tx.snapshot = .write tx.plan
  opens : ∀ reason metadata, tx.writer = .cancel reason metadata →
    tx.snapshot.status.isTerminal = false
  current : tx.hit = some true → Current db tx.snapshot
  stale : tx.hit = some false → ∀ row, db.row = some row → tx.snapshot.version < row.version
  finished : tx.appended = true → tx.hit = some true ∧ tx.fills = []
  booked : tx.hit = some true → ∃ done, tx.plan.fills = done ++ tx.fills ∧
    tx.position.or db.position = (bookFills tx.plan.side db done).position
  loaded : tx.hit = some true → ∀ row, tx.loaded = some row → row = tx.position.or db.position
  fresh : tx.hit = none → tx.fills = tx.plan.fills ∧ tx.position = none ∧ tx.loaded = none

def RowsApart (a b : Tx) : Prop := ¬ (a.hit = some true ∧ b.hit = some true)

theorem rows_apart_symm (a b : Tx) (apart : RowsApart a b) : RowsApart b a :=
  fun both => apart ⟨both.2, both.1⟩

structure Inv (s : Writers) : Prop where
  num : Numbered s.db
  lively : ∀ row, s.db.row = some row → Lively row.toOrderAggregateState
  folds : ∀ row, s.db.row = some row → row.status.isTerminal = false →
    FoldsTo s.db row.toOrderAggregateState
  valid : ValidLog s.db.log
  made : Made s.committed s.db
  txs : ∀ tx ∈ s.txs, Sound s.db tx
  apart : s.txs.Pairwise RowsApart

theorem start_inv : Inv .start where
  num := ⟨rfl, (by intro _ missing; cases missing), fun _ => rfl⟩
  lively := by intro _ missing; cases missing
  folds := by intro _ missing; cases missing
  valid := .empty
  made := .start
  txs := by intro _ missing; cases missing
  apart := .nil

theorem inv_coherent {s : Writers} (inv : Inv s) : Coherent s := by
  refine ⟨?_, inv.valid, inv.made⟩
  have length : (events s.db).length = s.db.log.length := by simp [events]
  rw [inv.num.gapless, numbered_versions, length, ← inv.num.gapless]

theorem set_keeps {s : Writers} (inv : Inv s) {i : Nat} {tx : Tx} (sound : Sound s.db tx)
    (apart : ∀ other ∈ s.txs.eraseIdx i, RowsApart tx other) :
    Inv { s with txs := s.txs.set i tx } := by
  exact ⟨inv.num, inv.lively, inv.folds, inv.valid, inv.made, forall_mem_set inv.txs sound,
    pairwise_set rows_apart_symm inv.apart i apart⟩

theorem erase_keeps {s : Writers} (inv : Inv s) (i : Nat) :
    Inv { s with txs := s.txs.eraseIdx i } :=
  ⟨inv.num, inv.lively, inv.folds, inv.valid, inv.made,
    fun tx member => inv.txs tx (List.mem_of_mem_eraseIdx member),
    inv.apart.sublist (List.eraseIdx_sublist s.txs i)⟩

theorem goes_on {s : Writers} (inv : Inv s) {i : Nat} {tx tx' : Tx} (there : s.txs[i]? = some tx)
    (sound : Sound s.db tx') (same : tx'.hit = tx.hit) :
    Inv { s with txs := s.txs.set i tx' } := by
  refine set_keeps inv sound fun other member => ?_
  have apart := pairwise_others rows_apart_symm inv.apart i there other member
  rw [RowsApart, same]
  exact apart

theorem read_keeps {s : Writers} (inv : Inv s) {writer : Writer} {snapshot : OrderRow}
    {plan : Plan} (read : readRow writer s.db.row = some snapshot)
    (decides : decideWrite writer snapshot = .write plan) :
    Inv { s with txs := s.txs ++ [.start writer snapshot plan] } := by
  obtain ⟨stored, opens⟩ := read_row_snapshot read
  refine ⟨inv.num, inv.lively, inv.folds, inv.valid, inv.made, ?_, ?_⟩
  · intro tx member
    rcases List.mem_append.mp member with old | new
    · exact inv.txs tx old
    · cases List.mem_singleton.mp new
      refine ⟨⟨snapshot, stored, le_refl _, fun _ => rfl⟩, decides, opens, ?_, ?_, ?_, ?_, ?_,
        fun _ => ⟨rfl, rfl, rfl⟩⟩ <;> simp [Tx.start]
  · refine List.pairwise_append.mpr ⟨inv.apart, List.pairwise_singleton _ _, ?_⟩
    intro a _ b new both
    cases List.mem_singleton.mp new
    simp [Tx.start] at both

theorem update_keeps {s t : Writers} (inv : Inv s) {i : Nat} {tx : Tx} {row : OrderRow}
    (there : s.txs[i]? = some tx) (stored : s.db.row = some row) (unwritten : tx.hit = none)
    (next : stepUpdate s i tx row = some t) : Inv t := by
  have sound := inv.txs tx (List.mem_of_getElem? there)
  obtain ⟨fills, position, loaded⟩ := sound.fresh unwritten
  have unappended : ¬ tx.appended = true := by
    intro appended
    have hit := (sound.finished appended).1
    simp [unwritten] at hit
  unfold stepUpdate at next
  split at next
  · rename_i current
    split at next
    · cases next
    · rename_i free
      cases next
      refine set_keeps inv ⟨sound.read, sound.decides, sound.opens, ?_, by simp,
        fun appended => absurd appended unappended, ?_, by simp [loaded], by simp⟩ ?_
      · exact fun _ => ⟨row, stored, current⟩
      · exact fun _ => ⟨[], by simp [fills], by simp [position, bookFills]⟩
      · intro other member both
        exact free (List.any_eq_true.mpr ⟨other, member, by simpa using both.2⟩)
  · rename_i moved
    split at next
    · cases next
      exact erase_keeps inv i
    · cases next
      refine set_keeps inv ⟨sound.read, sound.decides, sound.opens, by simp, ?_,
        fun appended => absurd appended unappended, by simp, by simp, by simp⟩ ?_
      · intro _ found there'
        obtain ⟨old, same, older, _⟩ := sound.read
        cases stored.symm.trans same
        cases stored.symm.trans there'
        exact lt_of_le_of_ne older (Ne.symm moved)
      · intro other _ both
        simp at both

theorem load_keeps {s t : Writers} (inv : Inv s) {i : Nat} {tx : Tx}
    (there : s.txs[i]? = some tx) (written : tx.hit ≠ none) (next : stepLoad s i tx = some t) :
    Inv t := by
  have sound := inv.txs tx (List.mem_of_getElem? there)
  have seen : ∀ (row : Option PositionMath) (holds : Bool), row = tx.position.or s.db.position →
      Sound s.db { tx with loaded := some row, holdsPosition := holds } := by
    intro row holds same
    refine ⟨sound.read, sound.decides, sound.opens, sound.current, sound.stale, sound.finished,
      sound.booked, ?_, fun unwritten => absurd unwritten written⟩
    intro _ found loaded
    cases loaded
    exact same
  unfold stepLoad at next
  split at next
  · rename_i p _ own
    cases next
    exact goes_on inv there (seen _ tx.holdsPosition (by simp [own])) rfl
  · rename_i none_own none_stored
    cases next
    exact goes_on inv there (seen _ tx.holdsPosition (by simp [none_own, none_stored])) rfl
  · rename_i p none_own stored
    split at next
    · cases next
    · cases next
      exact goes_on inv there (seen _ true (by simp [none_own, stored])) rfl

theorem upsert_keeps {s : Writers} (inv : Inv s) {i : Nat} {tx : Tx}
    (there : s.txs[i]? = some tx) {fill : Execution} {fills : List Execution}
    {row : Option PositionMath} (left : tx.fills = fill :: fills)
    (loaded : tx.loaded = some row) :
    Inv { s with txs := s.txs.set i { tx with
      fills, loaded := none, holdsPosition := true
      position := some ((row.getD .flat).applyFill tx.plan.side fill.qty fill.price) } } := by
  have sound := inv.txs tx (List.mem_of_getElem? there)
  refine goes_on inv there ⟨sound.read, sound.decides, sound.opens, sound.current, sound.stale,
    ?_, ?_, by simp, ?_⟩ rfl
  · intro appended
    have none_left := (sound.finished appended).2
    simp [left] at none_left
  · intro hit
    obtain ⟨done, all, position⟩ := sound.booked hit
    have seen := sound.loaded hit row loaded
    refine ⟨done ++ [fill], by simp [all, left], ?_⟩
    rw [book_fills_snoc, ← position, ← seen]
    rfl
  · intro unwritten
    have none_loaded := (sound.fresh unwritten).2.2
    simp [loaded] at none_loaded

/-- The append succeeds for the holder of the row lock alone: whoever missed the
    row finds the stream past the version it read. -/
theorem append_keeps {s : Writers} (inv : Inv s) {i : Nat} {tx : Tx}
    (there : s.txs[i]? = some tx) (written : tx.hit ≠ none) (booked : tx.fills = [])
    {appended : OrderDb}
    (appends : appendEventsInTx s.db tx.snapshot.version tx.plan.events = .ok appended) :
    Inv { s with txs := s.txs.set i { tx with appended := true } } := by
  have sound := inv.txs tx (List.mem_of_getElem? there)
  obtain ⟨_, _, event, only, _⟩ := planned_decided sound.decides
  rw [only, append_one inv.num s.db rfl] at appends
  have won : s.db.log.length = tx.snapshot.version := by
    by_contra lost
    simp [lost] at appends
  refine goes_on inv there ⟨sound.read, sound.decides, sound.opens, sound.current, sound.stale,
    fun _ => ⟨?_, booked⟩, sound.booked, sound.loaded, sound.fresh⟩ rfl
  obtain ⟨row, stored, _⟩ := sound.read
  have version := inv.num.rowVersion row stored
  cases hit : tx.hit with
  | none => exact absurd hit written
  | some found =>
    cases found with
    | true => rfl
    | false =>
      have newer := sound.stale hit row stored
      omega

theorem write_sound {db db' : OrderDb} {kind : WriteKind} {tx : Tx} (sound : Sound db tx)
    (write : Write db kind db') (free : tx.hit ≠ some true) : Sound db' tx := by
  refine ⟨write_snapshot sound.read write, sound.decides, sound.opens,
    fun hit => absurd hit free, ?_, sound.finished, fun hit => absurd hit free,
    fun hit => absurd hit free, sound.fresh⟩
  intro missed row' stored'
  obtain ⟨row, stored, _⟩ := sound.read
  have older := sound.stale missed row stored
  obtain ⟨found, there, newer, _⟩ :=
    write_snapshot ⟨row, stored, le_refl _, fun _ => rfl⟩ write
  cases stored'.symm.trans there
  omega

theorem record_sound {db : OrderDb} {tx : Tx} (sound : Sound db tx) (externalOrderId : String) :
    Sound (recordExternalId db externalOrderId) tx := by
  by_cases free : tx.hit = some true
  · have same := book_fills_position tx.plan.side
      (show db.position = (recordExternalId db externalOrderId).position from rfl)
    refine ⟨write_snapshot sound.read (.recorded externalOrderId), sound.decides, sound.opens,
      ?_, fun missed => absurd (free.symm.trans missed) (by simp), sound.finished, ?_,
      sound.loaded, sound.fresh⟩
    · intro hit
      obtain ⟨row, stored, version⟩ := sound.current hit
      exact ⟨{ row with externalOrderId := row.externalOrderId.or (some externalOrderId) },
        by simp [recordExternalId, stored], version⟩
    · intro hit
      obtain ⟨done, all, position⟩ := sound.booked hit
      exact ⟨done, all, position.trans (same done)⟩
  · exact write_sound sound (.recorded externalOrderId) free

theorem commit_performs {db : OrderDb} (num : Numbered db) {tx : Tx} (sound : Sound db tx)
    (appended : tx.appended = true) :
    Current db tx.snapshot ∧ tx.commit db = perform tx.writer tx.snapshot db := by
  obtain ⟨hit, none_left⟩ := sound.finished appended
  obtain ⟨row, stored, version⟩ := sound.current hit
  obtain ⟨done, all, position⟩ := sound.booked hit
  rw [none_left, List.append_nil] at all
  refine ⟨⟨row, stored, version⟩, ?_⟩
  rw [won_plan sound.decides num stored version, Tx.commit, Tx.row, if_pos hit, position, ← all,
    stored]
  rfl

theorem commit_valid {s : Writers} (inv : Inv s) {tx : Tx} (sound : Sound s.db tx)
    (current : Current s.db tx.snapshot) : ValidLog (tx.commit s.db).log := by
  obtain ⟨command, metadata, event, only, decided⟩ := planned_decided sound.decides
  obtain ⟨row, stored, version⟩ := current
  obtain ⟨found, there, _, same⟩ := sound.read
  cases stored.symm.trans there
  have state := same version.symm
  have length : s.db.log.length = tx.snapshot.version :=
    (inv.num.rowVersion row stored).symm.trans version
  have isOpen : row.status.isTerminal = false := by
    rw [← state]
    exact planned_open sound.decides
  have folds := inv.folds row stored isOpen
  rw [state] at decided
  simp only [Tx.commit, only, numbered, ← length]
  exact .append inv.valid folds decided

theorem commit_keeps {s : Writers} (inv : Inv s) {i : Nat} {tx : Tx}
    (there : s.txs[i]? = some tx) (appended : tx.appended = true) :
    Inv { s with
      db := tx.commit s.db
      txs := s.txs.eraseIdx i
      committed := s.committed ++ [.write tx.writer tx.snapshot] } := by
  have sound := inv.txs tx (List.mem_of_getElem? there)
  obtain ⟨current, performed⟩ := commit_performs inv.num sound appended
  have valid := commit_valid inv sound current
  have made := @Made.write _ _ tx.writer _ inv.made current
  obtain ⟨kind, _, write⟩ : ∃ kind, Makes tx.writer tx.snapshot s.db kind ∧
      Write s.db kind (perform tx.writer tx.snapshot s.db) := by
    rcases perform_writes inv.num inv.lively sound.read sound.opens with same | writes
    · -- A commit appends its event, so it does change the log.
      obtain ⟨_, _, event, only, _⟩ := planned_decided sound.decides
      have length := congrArg (fun db : OrderDb => db.log.length) (performed.trans same)
      simp [Tx.commit, only, numbered] at length
    · exact writes
  rw [← performed] at write made
  refine ⟨write_numbered inv.num write, write_lively write inv.lively,
    write_open_folds write inv.folds, valid, made, ?_,
    inv.apart.sublist (List.eraseIdx_sublist s.txs i)⟩
  intro other member
  refine write_sound (inv.txs other (List.mem_of_mem_eraseIdx member)) write fun both => ?_
  exact pairwise_others rows_apart_symm inv.apart i there other member
    ⟨(sound.finished appended).1, both⟩

theorem record_keeps {s : Writers} (inv : Inv s) (externalOrderId : String)
    (records : List String) :
    Inv { s with
      db := recordExternalId s.db externalOrderId
      records := records
      committed := s.committed ++ [.recordId externalOrderId] } := by
  have write : Write s.db (.recordId externalOrderId) (recordExternalId s.db externalOrderId) :=
    .recorded externalOrderId
  exact ⟨write_numbered inv.num write, write_lively write inv.lively,
    write_open_folds write inv.folds, inv.valid, .recordId inv.made externalOrderId,
    fun tx member => record_sound (inv.txs tx member) externalOrderId, inv.apart⟩

theorem submit_valid {cmd : SubmitOrder} {metadata : EventMetadata} {code : String}
    {createdAt : Nat} {db db' : OrderDb} (num : Numbered db)
    (inserted : submitTx cmd metadata code createdAt db = .ok db') : ValidLog db'.log := by
  obtain ⟨event, decided, log⟩ := submit_tx_decided num inserted
  rw [log]
  exact .append .empty rfl decided

theorem submit_keeps {s : Writers} (inv : Inv s) {cmd : SubmitOrder} {metadata : EventMetadata}
    {code : String} {createdAt : Nat} {db : OrderDb}
    (inserted : submitTx cmd metadata code createdAt s.db = .ok db) :
    Inv { s with
      db := db, committed := s.committed ++ [.submit cmd metadata code createdAt] } := by
  have write := submit_tx_writes inv.num inserted
  have absent := (submit_tx_inserts inv.num inserted).1
  refine ⟨write_numbered inv.num write, write_lively write inv.lively,
    write_open_folds write inv.folds, submit_valid inv.num inserted,
    .submit inv.made inserted, ?_, inv.apart⟩
  intro tx member
  obtain ⟨row, stored, _⟩ := (inv.txs tx member).read
  cases absent.symm.trans stored

theorem step_keeps {s t : Writers} {a : Action} (inv : Inv s) (next : step s a = some t) :
    Inv t := by
  have records : ∀ records, Inv { s with records := records } := fun records =>
    ⟨inv.num, inv.lively, inv.folds, inv.valid, inv.made, inv.txs, inv.apart⟩
  cases a with
  | submit cmd metadata code createdAt =>
    simp only [step] at next
    split at next
    · cases next
      exact inv
    · rename_i inserted
      cases next
      exact submit_keeps inv inserted
  | read writer =>
    simp only [step] at next
    split at next
    · cases next
      exact inv
    rename_i snapshot read
    split at next
    · cases next
      exact inv
    · cases next
      exact records _
    · rename_i plan decides
      cases next
      exact read_keeps inv read decides
  | update i =>
    simp only [step] at next
    split at next
    · rename_i tx row there stored
      split at next
      · rename_i unwritten
        exact update_keeps inv there stored unwritten next
      · cases next
    · cases next
  | load i =>
    simp only [step] at next
    split at next
    · cases next
    rename_i tx there
    split at next
    · cases next
    · rename_i ready
      exact load_keeps inv there (fun unwritten => ready (.inl unwritten)) next
  | upsert i =>
    simp only [step] at next
    split at next
    · cases next
    rename_i tx there
    split at next
    · rename_i fill fills row left loaded
      split at next
      · cases next
      · cases next
        exact upsert_keeps inv there left loaded
    · cases next
  | append i =>
    simp only [step] at next
    split at next
    · cases next
    rename_i tx there
    split at next
    · cases next
    rename_i ready
    simp only [not_or, not_not] at ready
    split at next
    · cases next
      exact erase_keeps inv i
    · rename_i appended appends
      cases next
      exact append_keeps inv there ready.1 ready.2.1 appends
  | commit i =>
    simp only [step] at next
    split at next
    · cases next
    rename_i tx there
    split at next
    · rename_i appended
      cases next
      exact commit_keeps inv there appended
    · cases next
  | abort i =>
    cases next
    exact erase_keeps inv i
  | record i =>
    simp only [step] at next
    split at next
    · rename_i externalOrderId row there stored
      split at next
      · cases next
      · cases next
        exact record_keeps inv externalOrderId _
    · cases next
  | forget i =>
    cases next
    exact records _

theorem leaves_db (s : Writers) (a : Action) : LeavesDb s a := by
  intro t next same
  have longer : ∀ {commits : List Commit} {commit : Commit}, commits ++ [commit] ≠ commits := by
    intro commits commit equal
    simpa using congrArg List.length equal
  cases a with
  | submit cmd metadata code createdAt =>
    simp only [step] at next
    split at next
    · cases next
      rfl
    · cases next
      exact absurd same longer
  | read writer =>
    simp only [step] at next
    split at next
    · cases next
      rfl
    · split at next <;> cases next <;> rfl
  | update i =>
    simp only [step, stepUpdate] at next
    split at next
    · split at next
      · split at next
        · split at next <;> cases next
          rfl
        · split at next <;> cases next <;> rfl
      · cases next
    · cases next
  | load i =>
    simp only [step, stepLoad] at next
    split at next
    · cases next
    · split at next
      · cases next
      · split at next
        · cases next
          rfl
        · cases next
          rfl
        · split at next <;> cases next
          rfl
  | upsert i =>
    simp only [step] at next
    split at next
    · cases next
    · split at next
      · split at next <;> cases next
        rfl
      · cases next
  | append i =>
    simp only [step] at next
    split at next
    · cases next
    · split at next
      · cases next
      · split at next <;> cases next <;> rfl
  | commit i =>
    simp only [step] at next
    split at next
    · cases next
    · split at next <;> cases next
      exact absurd same longer
  | abort i =>
    cases next
    rfl
  | record i =>
    simp only [step] at next
    split at next
    · split at next <;> cases next
      exact absurd same longer
    · cases next
  | forget i =>
    cases next
    rfl

/-- In every interleaving the log is numbered without a gap, every event is one
    that `decide` yields from the fold of those before it, and the writers that
    lose leave nothing. -/
theorem log_valid_and_writes_atomic (as : List Action) :
    Throughout step Coherent .start as ∧ Along step LeavesDb .start as := by
  constructor
  · exact throughout_mono (fun _ inv => inv_coherent inv)
      (throughout_keeps (fun _ _ _ inv next => step_keeps inv next) start_inv as)
  · exact along_of_mem (fun a _ s => leaves_db s a) .start

/-- Two fills and a route of a buy of ten read the same row. The first fill books;
    the second has already changed the position when its append loses. -/
example : (run step .start [.submit buyTen stamp "paper" 0,
    .read (.report (.fill "x" 4 100 "V") stamp), .read (.report (.fill "y" 6 100 "V") stamp),
    .read (.route "V" "v1" stamp), .update 0, .load 0, .upsert 0, .append 0, .commit 0,
    .update 0, .load 0, .upsert 0, .append 0, .update 0, .append 0]).map
      (fun s => (s.db.log.length, s.db.position, s.committed.length)) =
    some (2, some ⟨4, 100, 0⟩, 2) := by
  decide +kernel

end OmsOptimisticWriters
