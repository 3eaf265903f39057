import OpenOms.KafkaOutbox
import OpenOms.Library.Lists
import OpenOms.Library.Outbox
import OpenOms.Library.Runs
import Mathlib.Data.List.Flatten
import Mathlib.Data.List.Nodup
import Mathlib.Logic.Function.Basic

/-!
The positions topic. Every write of a position row queues a change in its own
transaction, whoever writes: a fill, a transfer, the rebuild with its deletes and
inserts. The bridge publishes each queued change with the row as it reads it then.
-/
namespace OmsPositionOutbox
open OmsPositions OmsKafkaOutbox Lists Runs Outbox

abbrev Key := String × String

abbrev Table := Key → Option PositionMath

def key (change : QueuedChange) : Key := (change.portfolioId, change.instrumentId)

structure Write where
  id : Nat
  key : Key
  row : Option PositionMath
  deriving DecidableEq, Repr

/-- `past` holds the tables before each commit, `commits` every change committed
    with the number of the table it came with. -/
structure PositionOutbox where
  nextId : Nat
  past : List Table
  table : Table
  queue : List QueuedChange
  commits : List (QueuedChange × Nat)
  txs : List (List Write)
  bridge : Bridge Nat OutboxRecord
  published : List OutboxRecord
  acks : List (Nat × OutboxRecord)
  drained : Bool

def PositionOutbox.start : PositionOutbox :=
  ⟨1, [], fun _ => none, [], [], [], .start, [], [], false⟩

inductive Action where
  | begin
  | write (i : Nat) (key : Key) (row : Option PositionMath)
  | commit (i : Nat)
  | abort (i : Nat)
  | fetch (limit : Nat)
  | move (m : Move)
  deriving DecidableEq, Repr

def applyWrites (table : Table) (writes : List Write) : Table :=
  writes.foldl (fun table write => Function.update table write.key write.row) table

def Write.change (write : Write) : QueuedChange := ⟨write.id, write.key.1, write.key.2⟩

def tables (s : PositionOutbox) : List Table := s.past ++ [s.table]

def afterMove (s : PositionOutbox) (effect : Effect Nat OutboxRecord) : PositionOutbox :=
  { s with
    bridge := effect.bridge
    published := s.published ++ effect.arrived.map (·.2)
    acks := s.acks ++ effect.acked
    queue := s.queue.filter (·.id ∉ effect.removed) }

/-- Row locks would only rule steps out. A drain has completed when both its
    queues read empty; a commit after that calls for another. -/
def step (topics : OutboxTopics) (s : PositionOutbox) : Action → Option PositionOutbox
  | .begin => some { s with txs := s.txs ++ [[]] }
  | .write i key row =>
    match s.txs[i]? with
    | none => none
    | some writes =>
      if row = none ∧ applyWrites s.table writes key = none then none
      else some { s with
        nextId := s.nextId + 1
        txs := s.txs.set i (writes ++ [⟨s.nextId, key, row⟩]) }
  | .commit i =>
    match s.txs[i]? with
    | none => none
    | some writes =>
      let changes := writes.map Write.change
      some { s with
        past := tables s
        table := applyWrites s.table writes
        queue := s.queue ++ changes
        commits := s.commits ++ changes.map (·, s.past.length + 1)
        txs := s.txs.eraseIdx i
        drained := false }
  | .abort i => some { s with txs := s.txs.eraseIdx i }
  | .fetch limit =>
    if limit = 0 then none
    else
      let batch := (fetchPositionBatch s.queue s.table limit).map fun change =>
        (change.id, (positionRecord change topics).toList)
      (s.bridge.fetch batch).map fun bridge =>
        { s with bridge, drained := s.drained || batch.isEmpty }
  | .move m => (s.bridge.move m).map (afterMove s)

def recordOf (topics : OutboxTopics) (key : Key) (row : PositionMath) : OutboxRecord :=
  ⟨topics.positions, .position key.1 key.2, .position key.1 key.2 row⟩

def lastPublished (published : List OutboxRecord) (key : Key) : Option OutboxRecord :=
  (published.filter (·.key = .position key.1 key.2)).getLast?

def Converged (topics : OutboxTopics) (s : PositionOutbox) : Prop :=
  s.drained → ∀ key row, s.table key = some row →
    lastPublished s.published key = some (recordOf topics key row)

def RemovedAfterRead (topics : OutboxTopics) (s : PositionOutbox) : Prop :=
  ∀ commit ∈ s.commits, commit.1 ∈ s.queue ∨
    ∃ n table, commit.2 ≤ n ∧ (tables s)[n]? = some table ∧
      ∀ row, table (key commit.1) = some row →
        (commit.1.id, recordOf topics (key commit.1) row) ∈ s.acks

def Publishes (topics : OutboxTopics) (s : PositionOutbox) : Prop :=
  Converged topics s ∧ RemovedAfterRead topics s

def recordsOf (topics : OutboxTopics) (key : Key) (row : Option PositionMath) :
    List OutboxRecord :=
  (row.map (recordOf topics key)).toList

def Built (topics : OutboxTopics) (s : PositionOutbox) (id : Nat) (records : List OutboxRecord) :
    Prop :=
  ∃ commit ∈ s.commits, commit.1.id = id ∧ ∃ n table, commit.2 ≤ n ∧
    (tables s)[n]? = some table ∧ records = recordsOf topics (key commit.1) (table (key commit.1))

/-- A change of the key is queued that neither the batch nor a removal knows of. -/
def Renewed (s : PositionOutbox) (key' : Key) : Prop :=
  ∃ change ∈ s.queue, key change = key' ∧ change.id ∉ s.bridge.settled ∧
    change.id ∉ s.bridge.stage.left.map (·.1)

def Current (s : PositionOutbox) (key : Key) (row : Option PositionMath) : Prop :=
  row = s.table key ∨ Renewed s key

def Unsent (topics : OutboxTopics) (s : PositionOutbox) (item : Nat × List OutboxRecord) : Prop :=
  ∃ commit ∈ s.commits, commit.1.id = item.1 ∧ ∃ row,
    item.2 = recordsOf topics (key commit.1) row ∧ Current s (key commit.1) row

def Sent (topics : OutboxTopics) (s : PositionOutbox) (item : Nat × List OutboxRecord) : Prop :=
  ∃ commit ∈ s.commits, commit.1.id = item.1 ∧ ∃ row, item.2 = [] ∧
    lastPublished s.published (key commit.1) = some (recordOf topics (key commit.1) row) ∧
      Current s (key commit.1) (some row)

def BatchInv (topics : OutboxTopics) (s : PositionOutbox) : List (Nat × List OutboxRecord) → Prop
  | [] => True
  | head :: rest =>
    (Unsent topics s head ∨ Sent topics s head) ∧ ∀ item ∈ rest, Unsent topics s item

def allIds (s : PositionOutbox) : List Nat :=
  s.commits.map (·.1.id) ++ s.txs.flatMap fun writes => writes.map (·.id)

/-- What was published last of a key is its row, or a change of it is queued that no
    removal knows of. -/
def Told (topics : OutboxTopics) (s : PositionOutbox) : Prop :=
  ∀ key', (∃ change ∈ s.queue, key change = key' ∧ change.id ∉ s.bridge.settled) ∨
    ∀ row, s.table key' = some row →
      lastPublished s.published key' = some (recordOf topics key' row)

structure Inv (topics : OutboxTopics) (s : PositionOutbox) : Prop where
  below : ∀ id ∈ allIds s, id < s.nextId
  distinct : (allIds s).Nodup
  numbered : ∀ commit ∈ s.commits, commit.2 ≤ s.past.length
  entries : ∀ change ∈ s.queue, ∃ n, (change, n) ∈ s.commits
  queued : ∀ commit ∈ s.commits, commit.1 ∈ s.queue ∨
    AllAcked (Built topics s) s.acks commit.1.id
  sound : Sound (Built topics s) s.acks s.bridge
  batch : BatchInv topics s s.bridge.stage.left
  told : Told topics s
  emptied : s.drained → s.queue = []

variable {topics : OutboxTopics} {s t : PositionOutbox}

theorem start_inv : Inv topics .start := by
  refine ⟨?_, ?_, ?_, ?_, ?_, start_sound, trivial, fun _ => Or.inr ?_, ?_⟩
  · simp [allIds, PositionOutbox.start]
  · simp [allIds, PositionOutbox.start]
  · simp [PositionOutbox.start]
  · simp [PositionOutbox.start]
  · simp [PositionOutbox.start]
  · simp [PositionOutbox.start]
  · simp [PositionOutbox.start]

theorem all_ids_perm {i : Nat} {writes : List Write} (there : s.txs[i]? = some writes) :
    (allIds s).Perm (s.commits.map (·.1.id) ++ (writes.map (·.id) ++
      (s.txs.eraseIdx i).flatMap fun writes => writes.map (·.id))) :=
  ((perm_at there).flatMap_right _).append_left _

theorem ids_keep (inv : Inv topics s) (nextId : Nat) {txs : List (List Write)}
    (below : ∀ id ∈ allIds { s with txs }, id < nextId)
    (distinct : (allIds { s with txs }).Nodup) :
    Inv topics { s with nextId := nextId, txs := txs } :=
  ⟨below, distinct, inv.numbered, inv.entries, inv.queued, inv.sound, inv.batch, inv.told,
    inv.emptied⟩

theorem begin_keeps (inv : Inv topics s) : Inv topics { s with txs := s.txs ++ [[]] } := by
  have same : allIds { s with txs := s.txs ++ [[]] } = allIds s := by simp [allIds]
  refine ids_keep inv s.nextId ?_ ?_
  · rw [same]
    exact inv.below
  · rw [same]
    exact inv.distinct

theorem write_keeps {i : Nat} {writes : List Write} {key : Key} {row : Option PositionMath}
    (inv : Inv topics s) (there : s.txs[i]? = some writes) :
    Inv topics { s with
      nextId := s.nextId + 1
      txs := s.txs.set i (writes ++ [⟨s.nextId, key, row⟩]) } := by
  have within : i < s.txs.length := (List.getElem?_eq_some_iff.mp there).1
  have grown : (allIds { s with txs := s.txs.set i (writes ++ [⟨s.nextId, key, row⟩]) }).Perm
      (s.nextId :: allIds s) := by
    refine (all_ids_perm (i := i) (List.getElem?_set_self within)).trans ?_
    simp only [List.eraseIdx_set_eq, List.map_append, List.map_cons, List.map_nil,
      List.append_assoc, List.singleton_append]
    rw [← List.append_assoc]
    refine List.perm_middle.trans (.cons _ ?_)
    rw [List.append_assoc]
    exact (all_ids_perm there).symm
  refine ids_keep inv (s.nextId + 1) ?_ ?_
  · intro id member
    rcases List.mem_cons.mp (grown.mem_iff.mp member) with rfl | old
    · exact Nat.lt_succ_self _
    · exact Nat.lt_succ_of_lt (inv.below id old)
  · refine grown.nodup_iff.mpr (List.nodup_cons.mpr ⟨fun taken => ?_, inv.distinct⟩)
    exact absurd (inv.below _ taken) (Nat.lt_irrefl _)

theorem abort_keeps (inv : Inv topics s) (i : Nat) :
    Inv topics { s with txs := s.txs.eraseIdx i } := by
  have sublist : (allIds { s with txs := s.txs.eraseIdx i }).Sublist (allIds s) :=
    ((List.eraseIdx_sublist _ _).flatMap _).append_left _
  refine ids_keep inv s.nextId ?_ ?_
  · exact fun id member => inv.below id (sublist.subset member)
  · exact sublist.nodup inv.distinct

theorem apply_writes_other {table : Table} {writes : List Write} {key : Key}
    (untouched : ∀ write ∈ writes, write.key ≠ key) : applyWrites table writes key = table key := by
  induction writes generalizing table with
  | nil => rfl
  | cons write writes ih =>
    obtain ⟨first, rest⟩ := List.forall_mem_cons.mp untouched
    exact (ih rest).trans (Function.update_of_ne (Ne.symm first) _ _)

theorem handled_committed (inv : Inv topics s) {id : Nat}
    (handled : id ∈ s.bridge.settled ∨ id ∈ s.bridge.stage.left.map (·.1)) :
    id ∈ s.commits.map (·.1.id) := by
  have built : ∀ {records : List OutboxRecord}, Built topics s id records →
      id ∈ s.commits.map (·.1.id) := by
    rintro records ⟨commit, member, same, _⟩
    exact List.mem_map.mpr ⟨commit, member, same⟩
  rcases handled with settled | left
  · obtain ⟨records, made, _⟩ := inv.sound.settled id settled
    exact built made
  · obtain ⟨item, member, rfl⟩ := List.mem_map.mp left
    obtain ⟨sent, made, _⟩ := inv.sound.sending item member
    exact built made

def committed (s : PositionOutbox) (i : Nat) (writes : List Write) : PositionOutbox :=
  { s with
    past := tables s
    table := applyWrites s.table writes
    queue := s.queue ++ writes.map Write.change
    commits := s.commits ++ (writes.map Write.change).map (·, s.past.length + 1)
    txs := s.txs.eraseIdx i
    drained := false }

theorem committed_ids {i : Nat} {writes : List Write} (there : s.txs[i]? = some writes) :
    (allIds (committed s i writes)).Perm (allIds s) := by
  refine .trans ?_ (all_ids_perm there).symm
  simp [allIds, committed, Write.change, Function.comp_def]

theorem fresh_ids {i : Nat} {writes : List Write} (inv : Inv topics s)
    (there : s.txs[i]? = some writes) {write : Write} (member : write ∈ writes) :
    write.id ∉ s.commits.map (·.1.id) := by
  intro taken
  have distinct := (all_ids_perm there).nodup_iff.mp inv.distinct
  exact (List.nodup_append.mp distinct).2.2 _ taken _
    (List.mem_append_left _ (List.mem_map_of_mem member)) rfl

theorem committed_built {i : Nat} {writes : List Write} {id : Nat} {records : List OutboxRecord}
    (built : Built topics s id records) : Built topics (committed s i writes) id records := by
  obtain ⟨commit, member, same, n, table', after, found, rfl⟩ := built
  refine ⟨commit, List.mem_append_left _ member, same, n, table', after, ?_, rfl⟩
  show (tables s ++ [applyWrites s.table writes])[n]? = some table'
  rw [List.getElem?_append_left (List.getElem?_eq_some_iff.mp found).1]
  exact found

theorem touched_renewed {i : Nat} {writes : List Write} (inv : Inv topics s)
    (there : s.txs[i]? = some writes) {write : Write} (member : write ∈ writes) :
    Renewed (committed s i writes) write.key := by
  have fresh := fresh_ids inv there member
  refine ⟨write.change, ?_, rfl, ?_, ?_⟩
  · exact List.mem_append_right _ (List.mem_map_of_mem member)
  · exact fun settled => fresh (handled_committed inv (Or.inl settled))
  · exact fun left => fresh (handled_committed inv (Or.inr left))

theorem committed_current {i : Nat} {writes : List Write} (inv : Inv topics s)
    (there : s.txs[i]? = some writes) {key : Key} {row : Option PositionMath}
    (holds : Current s key row) : Current (committed s i writes) key row := by
  by_cases touched : ∃ write ∈ writes, write.key = key
  · obtain ⟨write, member, rfl⟩ := touched
    exact Or.inr (touched_renewed inv there member)
  · have kept : (committed s i writes).table key = s.table key :=
      apply_writes_other (by simpa using touched)
    rcases holds with now | ⟨change, member, rest⟩
    · exact Or.inl (now.trans kept.symm)
    · exact Or.inr ⟨change, List.mem_append_left _ member, rest⟩

theorem committed_unsent {i : Nat} {writes : List Write} (inv : Inv topics s)
    (there : s.txs[i]? = some writes) {item : Nat × List OutboxRecord}
    (unsent : Unsent topics s item) : Unsent topics (committed s i writes) item := by
  obtain ⟨commit, member, same, row, records, holds⟩ := unsent
  exact ⟨commit, List.mem_append_left _ member, same, row, records,
    committed_current inv there holds⟩

theorem committed_batch {i : Nat} {writes : List Write} (inv : Inv topics s)
    (there : s.txs[i]? = some writes) {left : List (Nat × List OutboxRecord)}
    (batch : BatchInv topics s left) : BatchInv topics (committed s i writes) left := by
  cases left with
  | nil => trivial
  | cons head rest =>
    obtain ⟨first, others⟩ := batch
    refine ⟨first.imp (committed_unsent inv there) ?_, ?_⟩
    · rintro ⟨commit, member, same, row, none_, last, holds⟩
      exact ⟨commit, List.mem_append_left _ member, same, row, none_, last,
        committed_current inv there holds⟩
    · exact fun item member => committed_unsent inv there (others item member)

theorem committed_queued {i : Nat} {writes : List Write} (inv : Inv topics s) :
    ∀ commit ∈ (committed s i writes).commits, commit.1 ∈ (committed s i writes).queue ∨
      AllAcked (Built topics (committed s i writes)) s.acks commit.1.id := by
  intro commit member
  rcases List.mem_append.mp member with old | new
  · refine (inv.queued commit old).imp (List.mem_append_left _) ?_
    exact all_acked_mono (fun _ => committed_built) (List.Subset.refl _)
  · obtain ⟨change, isNew, rfl⟩ := List.mem_map.mp new
    exact Or.inl (List.mem_append_right _ isNew)

theorem committed_told {i : Nat} {writes : List Write} (inv : Inv topics s)
    (there : s.txs[i]? = some writes) : Told topics (committed s i writes) := by
  intro key'
  by_cases touched : ∃ write ∈ writes, write.key = key'
  · obtain ⟨write, member, rfl⟩ := touched
    obtain ⟨change, queued, same, unsettled, _⟩ := touched_renewed inv there member
    exact Or.inl ⟨change, queued, same, unsettled⟩
  · have kept : (committed s i writes).table key' = s.table key' :=
      apply_writes_other (by simpa using touched)
    rw [kept]
    refine (inv.told key').imp_left ?_
    exact fun ⟨change, member, rest⟩ => ⟨change, List.mem_append_left _ member, rest⟩

theorem commit_keeps {i : Nat} {writes : List Write} (inv : Inv topics s)
    (there : s.txs[i]? = some writes) : Inv topics (committed s i writes) := by
  have same := committed_ids there
  refine ⟨?_, ?_, ?_, ?_, committed_queued inv, ?_, committed_batch inv there inv.batch,
    committed_told inv there, ?_⟩
  · exact fun id member => inv.below id (same.mem_iff.mp member)
  · exact same.nodup_iff.mpr inv.distinct
  · intro commit member
    have length : (committed s i writes).past.length = s.past.length + 1 := by
      simp [committed, tables]
    rw [length]
    rcases List.mem_append.mp member with old | new
    · exact Nat.le_succ_of_le (inv.numbered commit old)
    · obtain ⟨change, _, rfl⟩ := List.mem_map.mp new
      exact Nat.le_refl _
  · intro change member
    rcases List.mem_append.mp member with old | new
    · obtain ⟨n, before⟩ := inv.entries change old
      exact ⟨n, List.mem_append_left _ before⟩
    · exact ⟨_, List.mem_append_right _ (List.mem_map_of_mem new)⟩
  · exact sound_mono (fun _ _ => committed_built) (List.Subset.refl _) inv.sound
  · intro drained
    cases drained

theorem fetched_item {limit : Nat} {item : Nat × List OutboxRecord}
    (member : item ∈ (fetchPositionBatch s.queue s.table limit).map fun change =>
      (change.id, (positionRecord change topics).toList)) :
    ∃ change ∈ s.queue,
      item = (change.id, recordsOf topics (key change) (s.table (key change))) := by
  obtain ⟨_, fetched, rfl⟩ := List.mem_map.mp member
  obtain ⟨change, queued, rfl⟩ := List.mem_map.mp fetched
  exact ⟨change, List.mem_mergeSort.mp (List.mem_of_mem_take queued), rfl⟩

theorem fetch_keeps {limit : Nat} (inv : Inv topics s)
    (next : step topics s (.fetch limit) = some t) : Inv topics t := by
  simp only [step] at next
  split at next
  · cases next
  · rename_i positive
    simp only [Option.map_eq_some_iff] at next
    obtain ⟨bridge, fetches, rfl⟩ := next
    have sound := fetch_sound inv.sound (fun item member => ?_) fetches
    · unfold Bridge.fetch at fetches
      split at fetches
      · rename_i idle
        cases fetches
        refine ⟨inv.below, inv.distinct, inv.numbered, inv.entries, inv.queued, sound, ?_, ?_, ?_⟩
        · simp only [Stage.left]
          generalize batch : (fetchPositionBatch s.queue s.table limit).map (fun change =>
            (change.id, (positionRecord change topics).toList)) = items
          have read : ∀ item ∈ items, ∃ commit ∈ s.commits, commit.1.id = item.1 ∧
              item.2 = recordsOf topics (key commit.1) (s.table (key commit.1)) := by
            intro item member
            obtain ⟨change, queued, rfl⟩ := fetched_item (batch ▸ member)
            obtain ⟨n, committed⟩ := inv.entries change queued
            exact ⟨_, committed, rfl, rfl⟩
          cases items with
          | nil => trivial
          | cons head rest =>
            constructor
            · obtain ⟨commit, member, same, records⟩ := read head List.mem_cons_self
              exact Or.inl ⟨commit, member, same, _, records, Or.inl rfl⟩
            · intro item later
              obtain ⟨commit, member, same, records⟩ := read item (List.mem_cons_of_mem _ later)
              exact ⟨commit, member, same, _, records, Or.inl rfl⟩
        · intro key'
          refine (inv.told key').imp_left ?_
          rintro ⟨change, queued, same, unsettled⟩
          refine ⟨change, queued, same, ?_⟩
          simpa [Bridge.settled, idle, Stage.acked] using unsettled
        · intro drained
          rcases (Bool.or_eq_true _ _).mp drained with before | empty
          · exact inv.emptied before
          · have length := congrArg List.length (List.isEmpty_iff.mp empty)
            simp [fetchPositionBatch, positive] at length
            exact length
      · cases fetches
      · cases fetches
    · obtain ⟨change, queued, rfl⟩ := fetched_item member
      obtain ⟨n, committed⟩ := inv.entries change queued
      refine ⟨_, committed, rfl, s.past.length, s.table, inv.numbered _ committed, ?_, rfl⟩
      simp [tables]

theorem renewed_move {e : Effect Nat OutboxRecord} (moved : Moved s.bridge e) {key' : Key}
    (renewed : Renewed s key') : Renewed (afterMove s e) key' := by
  obtain ⟨change, queued, same, unsettled, unlisted⟩ := renewed
  have settled := moved_settled moved
  refine ⟨change, ?_, same, ?_, ?_⟩
  · refine List.mem_filter.mpr ⟨queued, ?_⟩
    simpa using fun gone => unsettled (settled.1 _ gone)
  · intro now
    rcases settled.2 _ now with before | done
    · exact unsettled before
    · exact unlisted (List.mem_map_of_mem done)
  · intro now
    obtain ⟨item, left, same⟩ := List.mem_map.mp now
    obtain ⟨sent, before, _⟩ := moved_sending moved item left
    exact unlisted (same ▸ List.mem_map.mpr ⟨_, before, rfl⟩)

theorem current_move {e : Effect Nat OutboxRecord} (moved : Moved s.bridge e) {key' : Key}
    {row : Option PositionMath} (current : Current s key' row) :
    Current (afterMove s e) key' row :=
  current.imp id (renewed_move moved)

theorem unsent_move {e : Effect Nat OutboxRecord} (moved : Moved s.bridge e)
    {item : Nat × List OutboxRecord} (unsent : Unsent topics s item) :
    Unsent topics (afterMove s e) item := by
  obtain ⟨commit, member, same, row, records, current⟩ := unsent
  exact ⟨commit, member, same, row, records, current_move moved current⟩

theorem unsent_record {id : Nat} {record : OutboxRecord} {records : List OutboxRecord}
    (batch : Unsent topics s (id, record :: records) ∨ Sent topics s (id, record :: records)) :
    ∃ commit ∈ s.commits, commit.1.id = id ∧ ∃ row, records = [] ∧
      record = recordOf topics (key commit.1) row ∧ Current s (key commit.1) (some row) := by
  rcases batch with ⟨commit, member, same, row, made, current⟩ | ⟨_, _, _, _, none_, _⟩
  · cases row with
    | none => cases made
    | some row =>
      simp only [recordsOf, Option.map_some, Option.toList_some, List.cons.injEq] at made
      exact ⟨commit, member, same, row, made.2, made.1, current⟩
  · cases none_

theorem last_published_same {published arrived : List OutboxRecord} {key : Key}
    {record : OutboxRecord} (all : ∀ other ∈ arrived, other = record)
    (some_ : arrived ≠ []) (same : record.key = .position key.1 key.2) :
    lastPublished (published ++ arrived) key = some record := by
  have kept : arrived.filter (·.key = .position key.1 key.2) = arrived :=
    List.filter_eq_self.mpr fun other member => by simp [all other member, same]
  rw [lastPublished, List.filter_append, kept, List.getLast?_append_of_ne_nil _ some_,
    List.getLast?_eq_some_getLast some_]
  exact congrArg some (all _ (List.getLast_mem some_))

theorem last_published_other {published arrived : List OutboxRecord} {key : Key}
    (others : ∀ other ∈ arrived, other.key ≠ .position key.1 key.2) :
    lastPublished (published ++ arrived) key = lastPublished published key := by
  have none_ : arrived.filter (·.key = .position key.1 key.2) = [] :=
    List.filter_eq_nil_iff.mpr fun other member => by simpa using others other member
  rw [lastPublished, List.filter_append, none_, List.append_nil, lastPublished]

theorem told_arrives {arrived : List OutboxRecord} {key' : Key} {row : PositionMath}
    (told : Told topics s) (current : Current s key' (some row))
    (all : ∀ other ∈ arrived, other = recordOf topics key' row) :
    Told topics { s with published := s.published ++ arrived } := by
  intro other
  by_cases same : other = key'
  · subst same
    rcases current with now | ⟨change, queued, same, unsettled, _⟩
    · by_cases none_ : arrived = []
      · simpa [none_] using told other
      · refine Or.inr fun row' found => ?_
        cases found.symm.trans now.symm
        exact last_published_same all none_ rfl
    · exact Or.inl ⟨change, queued, same, unsettled⟩
  · have untouched : lastPublished (s.published ++ arrived) other =
        lastPublished s.published other := by
      refine last_published_other fun record member => ?_
      rw [all record member]
      intro keys
      simp only [recordOf, RecordKey.position.injEq] at keys
      exact same (Prod.ext keys.1.symm keys.2.symm)
    simpa [untouched] using told other

theorem told_quiet {e : Effect Nat OutboxRecord} (moved : Moved s.bridge e)
    (told : Told topics { s with published := s.published ++ e.arrived.map (·.2) })
    (settled : ∀ id ∈ e.bridge.settled, id ∈ s.bridge.settled) :
    Told topics (afterMove s e) := by
  intro key'
  refine (told key').imp_left ?_
  rintro ⟨change, queued, same, unsettled⟩
  refine ⟨change, List.mem_filter.mpr ⟨queued, ?_⟩, same, fun now => unsettled (settled _ now)⟩
  simpa using fun gone => unsettled ((moved_settled moved).1 _ gone)

/-- An entry passes on what it stood for: the record just published, a row gone, or
    a later change. -/
theorem told_settles {id : Nat} {left : List (Nat × List OutboxRecord)} {acked : List Nat}
    (inv : Inv topics s) (at_ : s.bridge.stage = .sending ((id, []) :: left) acked) :
    Told topics
      (afterMove s (silent { s.bridge with stage := .sending left (acked ++ [id]) })) := by
  generalize made : ({ s.bridge with stage := .sending left (acked ++ [id]) } :
    Bridge Nat OutboxRecord) = bridge
  have now_settled : ∀ other, other ∈ s.bridge.settled ∨ other = id ↔ other ∈ bridge.settled := by
    intro other
    simp only [← made, Bridge.settled, at_, Stage.acked, List.mem_append, List.mem_singleton]
    tauto
  have stays : ∀ change ∈ s.queue, change ∈ (afterMove s (silent bridge)).queue := by
    intro change queued
    exact List.mem_filter.mpr ⟨queued, by simp [silent]⟩
  intro key'
  rcases inv.told key' with ⟨change, queued, same, unsettled⟩ | told
  · by_cases own : change.id = id
    · have batch := inv.batch
      rw [at_] at batch
      obtain ⟨n, committed⟩ := inv.entries change queued
      have commit_of : ∀ commit ∈ s.commits, commit.1.id = id → key commit.1 = key' := by
        intro commit member sameId
        have distinct := (List.nodup_append.mp inv.distinct).1
        have only := List.inj_on_of_nodup_map distinct member committed (sameId.trans own.symm)
        rw [only, same]
      have renewed : Renewed s key' → ∃ change ∈ s.queue, key change = key' ∧
          change.id ∉ s.bridge.settled ∧ change.id ≠ id := by
        rintro ⟨other, queued', same', unsettled', unlisted⟩
        refine ⟨other, queued', same', unsettled', fun is => unlisted ?_⟩
        simp [at_, Stage.left, is]
      have from_later : Renewed s key' → ∃ change ∈ (afterMove s (silent bridge)).queue,
          key change = key' ∧ change.id ∉ bridge.settled := by
        intro later
        obtain ⟨other, queued', same', unsettled', apart⟩ := renewed later
        refine ⟨other, stays other queued', same', fun now => ?_⟩
        exact ((now_settled _).mpr now).elim unsettled' apart
      rcases batch.1 with ⟨commit, member, sameId, row, none_, current⟩ |
        ⟨commit, member, sameId, row, _, last, current⟩
      · have keys := commit_of commit member sameId
        rw [keys] at current
        cases row with
        | some row => cases none_
        | none =>
          rcases current with gone | later
          · right
            intro row found
            cases found.symm.trans gone.symm
          · exact Or.inl (from_later later)
      · have keys := commit_of commit member sameId
        rw [keys] at current last
        rcases current with now | later
        · right
          intro row' found
          cases found.symm.trans now.symm
          simpa [afterMove, silent] using last
        · exact Or.inl (from_later later)
    · refine Or.inl ⟨change, stays change queued, same, fun now => ?_⟩
      exact ((now_settled _).mpr now).elim unsettled own
  · right
    intro row found
    simpa [afterMove, silent] using told row found

theorem batch_move {e : Effect Nat OutboxRecord} (inv : Inv topics s) (moved : Moved s.bridge e) :
    BatchInv topics (afterMove s e) e.bridge.stage.left := by
  have batch := inv.batch
  cases moved with
  | sent at_ =>
    rw [at_] at batch
    obtain ⟨commit, member, same, row, rfl, made, current⟩ := unsent_record batch.1
    refine ⟨Or.inr ⟨commit, member, same, row, rfl, ?_, ?_⟩, fun item later => ?_⟩
    · exact last_published_same (by simp [made]) (by simp) (by simp [recordOf])
    · exact current_move (.sent at_) current
    · exact unsent_move (.sent at_) (batch.2 item later)
  | @settled id left acked at_ =>
    rw [at_] at batch
    cases left with
    | nil => trivial
    | cons head rest =>
      refine ⟨Or.inl (unsent_move (.settled at_) (batch.2 head List.mem_cons_self)), ?_⟩
      exact fun item later =>
        unsent_move (.settled at_) (batch.2 item (List.mem_cons_of_mem _ later))
  | landed at_ =>
    simp only [silent]
    cases left : s.bridge.stage.left with
    | nil => trivial
    | cons head rest =>
      rw [left] at batch
      refine ⟨batch.1.imp (unsent_move (.landed at_)) ?_, fun item later =>
        unsent_move (.landed at_) (batch.2 item later)⟩
      rintro ⟨commit, member, same, row, none_, last, current⟩
      refine ⟨commit, member, same, row, none_, ?_, current_move (.landed at_) current⟩
      simpa [afterMove, silent] using last
  | failed | finished | removed | stopped | cutOff => trivial

theorem told_move {e : Effect Nat OutboxRecord} (inv : Inv topics s) (moved : Moved s.bridge e) :
    Told topics (afterMove s e) := by
  have batch := inv.batch
  have nothing : Told topics { s with published := s.published ++ [] } := by
    simpa using inv.told
  have settles := (moved_settled moved).2
  have arrives : ∀ {id : Nat} {record : OutboxRecord} {records : List OutboxRecord}
      {left : List (Nat × List OutboxRecord)} {acked : List Nat}
      {arrived : List (Nat × OutboxRecord)},
      s.bridge.stage = .sending ((id, record :: records) :: left) acked →
        arrived ⊆ [(id, record)] →
          Told topics { s with published := s.published ++ arrived.map (·.2) } := by
    intro id record records left acked arrived at_ maybe
    rw [at_] at batch
    obtain ⟨commit, _, _, row, _, made, current⟩ := unsent_record batch.1
    refine told_arrives inv.told current fun other member => ?_
    obtain ⟨pair, among, rfl⟩ := List.mem_map.mp member
    cases List.mem_singleton.mp (maybe among)
    exact made
  have shrinks : (∀ id, (id, []) ∉ s.bridge.stage.left) →
      ∀ id ∈ e.bridge.settled, id ∈ s.bridge.settled :=
    fun unfinished id member => (settles id member).resolve_right (unfinished id)
  cases moved with
  | sent at_ =>
    refine told_quiet (.sent at_) (arrives at_ (List.Subset.refl _)) fun id member => ?_
    simpa [Bridge.settled, at_, Stage.acked] using member
  | failed at_ maybe =>
    refine told_quiet (.failed at_ maybe) (arrives at_ maybe) fun id member => ?_
    simpa [Bridge.settled, at_, Stage.acked, silent] using member
  | settled at_ => exact told_settles inv at_
  | finished at_ =>
    refine told_quiet (.finished at_) nothing fun id member => ?_
    simpa [Bridge.settled, at_, Stage.acked, silent] using member
  | removed at_ =>
    refine told_quiet (.removed at_) nothing (shrinks ?_)
    simp [at_, Stage.left]
  | stopped maybe =>
    refine told_quiet (.stopped maybe) ?_ fun id member => ?_
    · unfold Stage.underway at maybe
      split at maybe
      · rename_i at_
        exact arrives at_ maybe
      · cases List.subset_nil.mp maybe
        exact nothing
    · exact List.mem_append_right _ (by simpa [Bridge.settled, silent, Stage.acked] using member)
  | cutOff at_ =>
    refine told_quiet (.cutOff at_) nothing (shrinks ?_)
    simp [at_, Stage.left]
  | landed at_ =>
    refine told_quiet (.landed at_) nothing fun id member => ?_
    simp only [silent, Bridge.settled, List.mem_append, List.mem_flatten] at member ⊢
    refine member.imp_right ?_
    rintro ⟨ids, among, inside⟩
    exact ⟨ids, List.mem_of_mem_eraseIdx among, inside⟩

theorem move_keeps {m : Move} (inv : Inv topics s) (next : step topics s (.move m) = some t) :
    Inv topics t := by
  simp only [step, Option.map_eq_some_iff] at next
  obtain ⟨e, moves, rfl⟩ := next
  have moved := move_moved moves
  have more : s.acks ⊆ s.acks ++ e.acked := List.subset_append_left _ _
  refine ⟨inv.below, inv.distinct, inv.numbered, ?_, ?_, move_sound inv.sound moved,
    batch_move inv moved, told_move inv moved, ?_⟩
  · exact fun change member => inv.entries change (List.mem_filter.mp member).1
  · intro commit member
    rcases inv.queued commit member with queued | removed
    · by_cases gone : commit.1.id ∈ e.removed
      · exact Or.inr (all_acked_mono (fun _ => id) more (removed_acked inv.sound moved _ gone))
      · exact Or.inl (List.mem_filter.mpr ⟨queued, by simpa using gone⟩)
    · exact Or.inr (all_acked_mono (fun _ => id) more removed)
  · intro drained
    have emptied := inv.emptied drained
    simp [afterMove, emptied]

theorem step_keeps {a : Action} (inv : Inv topics s) (next : step topics s a = some t) :
    Inv topics t := by
  cases a with
  | begin =>
    cases next
    exact begin_keeps inv
  | write i key row =>
    simp only [step] at next
    split at next
    · cases next
    · rename_i there
      split at next
      · cases next
      · cases next
        exact write_keeps inv there
  | commit i =>
    simp only [step] at next
    split at next
    · cases next
    · rename_i there
      cases next
      exact commit_keeps inv there
  | abort i =>
    cases next
    exact abort_keeps inv i
  | fetch limit => exact fetch_keeps inv next
  | move m => exact move_keeps inv next

theorem inv_publishes (inv : Inv topics s) : Publishes topics s := by
  constructor
  · intro drained key' row found
    rcases inv.told key' with ⟨change, queued, _⟩ | last
    · rw [inv.emptied drained] at queued
      cases queued
    · exact last row found
  · intro commit member
    refine (inv.queued commit member).imp_right ?_
    rintro ⟨records, ⟨other, fromOther, same, n, table, after, found, rfl⟩, acked⟩
    have distinct := (List.nodup_append.mp inv.distinct).1
    cases List.inj_on_of_nodup_map distinct fromOther member same
    refine ⟨n, table, after, found, fun row there => acked _ ?_⟩
    simp [recordsOf, there]

/-- Whoever writes the positions, and whatever fails or crashes in between, a
    completed drain leaves the topic with every row's current values, and a change
    leaves the queue only after a later read of its row was acknowledged. -/
theorem positions_topic_converges (topics : OutboxTopics) (as : List Action) :
    Throughout (step topics) (Publishes topics) .start as :=
  throughout_mono (fun _ => inv_publishes)
    (throughout_keeps (fun _ _ _ inv next => step_keeps inv next) start_inv as)

end OmsPositionOutbox
