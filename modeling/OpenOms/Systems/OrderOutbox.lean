import OpenOms.KafkaOutbox
import OpenOms.Library.Lists
import OpenOms.Library.Outbox
import OpenOms.Library.Runs
import Mathlib.Data.List.Flatten
import Mathlib.Data.List.Nodup

/-!
The order events' way to Kafka. Transactions append events under their orders'
locks, each event taking its global position when it is inserted and its queue entry
with it; the bridge drains what is committed, batch by batch. A pass over the queued
position changes leaves all of this alone.
-/
namespace OmsOrderOutbox
open OmsOrders OmsOrderStore OmsKafkaOutbox Lists Runs Outbox

def orderId (x : StoredEvent) : String := x.record.event.orderId

def version (x : StoredEvent) : Nat := x.record.version

structure Tx where
  locks : List String
  inserted : List StoredEvent
  deriving DecidableEq, Repr

/-- The committed events and queue entries, the transactions in flight, the bridge,
    and the records acknowledged so far with the entries they were sent for. -/
structure OrderOutbox where
  nextPosition : Nat
  events : List StoredEvent
  outbox : List Nat
  txs : List Tx
  bridge : Bridge Nat OutboxRecord
  acks : List (Nat × OutboxRecord)

def OrderOutbox.start : OrderOutbox := ⟨1, [], [], [], .start, []⟩

inductive Action where
  | begin
  | lock (i : Nat) (order : String)
  | insert (i : Nat) (event : OrderDomainEvent)
  | commit (i : Nat)
  | abort (i : Nat)
  | fetch (limit : Nat) (orderState : String → Option OrderContext)
  | move (m : Move)

def versionAmong (rows : List StoredEvent) (order : String) : Nat :=
  currentVersion ((rows.filter (orderId · = order)).map (·.record))

def step (topics : OutboxTopics) (s : OrderOutbox) : Action → Option OrderOutbox
  | .begin => some { s with txs := s.txs ++ [⟨[], []⟩] }
  | .lock i order =>
    match s.txs[i]? with
    | none => none
    | some tx =>
      if (s.txs.eraseIdx i).any (order ∈ ·.locks) then none
      else some { s with txs := s.txs.set i { tx with locks := order :: tx.locks } }
  | .insert i event =>
    match s.txs[i]? with
    | none => none
    | some tx =>
      if event.orderId ∈ tx.locks then
        let current := versionAmong (s.events ++ tx.inserted) event.orderId
        let row := ⟨s.nextPosition, ⟨current + 1, event⟩⟩
        some { s with
          nextPosition := s.nextPosition + 1
          txs := s.txs.set i { tx with inserted := tx.inserted ++ [row] } }
      else none
  | .commit i =>
    match s.txs[i]? with
    | none => none
    | some tx =>
      some { s with
        events := s.events ++ tx.inserted
        outbox := s.outbox ++ tx.inserted.map (·.globalPosition)
        txs := s.txs.eraseIdx i }
  | .abort i => some { s with txs := s.txs.eraseIdx i }
  | .fetch limit orderState =>
    let batch := (fetchBatch s.outbox s.events orderState limit).map fun row =>
      (row.globalPosition, recordsFor row topics)
    (s.bridge.fetch batch).map fun bridge => { s with bridge }
  | .move m =>
    (s.bridge.move m).map fun effect =>
      { s with
        bridge := effect.bridge
        acks := s.acks ++ effect.acked
        outbox := s.outbox.filter (· ∉ effect.removed) }

def LosesNothing (topics : OutboxTopics) (s : OrderOutbox) : Prop :=
  ∀ x ∈ s.events, x.globalPosition ∈ s.outbox ∨
    ∃ orderState, ∀ record ∈ recordsFor (toRow orderState x) topics,
      (x.globalPosition, record) ∈ s.acks

def FirstAcksInOrder (s : OrderOutbox) : Prop :=
  ∀ x ∈ s.events, ∀ y ∈ s.events, orderId x = orderId y → version x < version y →
    ∀ (n : Nat) (record : OutboxRecord), s.acks[n]? = some (y.globalPosition, record) →
      ∃ m < n, ∃ earlier, s.acks[m]? = some (x.globalPosition, earlier)

def Delivers (topics : OutboxTopics) (s : OrderOutbox) : Prop :=
  LosesNothing topics s ∧ FirstAcksInOrder s

def Built (topics : OutboxTopics) (events : List StoredEvent) (position : Nat)
    (records : List OutboxRecord) : Prop :=
  ∃ x ∈ events, x.globalPosition = position ∧
    ∃ orderState, records = recordsFor (toRow orderState x) topics

def InStep (rows : List StoredEvent) : Prop :=
  ∀ x ∈ rows, ∀ y ∈ rows, orderId x = orderId y → version x < version y →
    x.globalPosition < y.globalPosition

def allRows (s : OrderOutbox) : List StoredEvent := s.events ++ s.txs.flatMap (·.inserted)

/-- The rows: positions are given out once and locks keep an order's versions and
    positions in step, whatever commits first. -/
structure RowsInv (s : OrderOutbox) : Prop where
  below : ∀ x ∈ allRows s, x.globalPosition < s.nextPosition
  distinct : ((allRows s).map (·.globalPosition)).Nodup
  apart : s.txs.Pairwise fun a b => ∀ order ∈ a.locks, order ∉ b.locks
  held : ∀ tx ∈ s.txs, ∀ x ∈ tx.inserted, orderId x ∈ tx.locks
  inStep : InStep s.events
  sees : ∀ tx ∈ s.txs, InStep (s.events ++ tx.inserted)
  later : ∀ tx ∈ s.txs, ∀ x ∈ s.events, ∀ y ∈ tx.inserted, orderId x = orderId y →
    version x < version y

/-- What an event's earlier ones of the order wait for: a place before it in the
    batch, or nothing any more. -/
def Led (s : OrderOutbox) (positions : List Nat) : Prop :=
  ∀ before position after, positions = before ++ position :: after →
    ∀ y ∈ s.events, y.globalPosition = position →
      ∀ x ∈ s.events, orderId x = orderId y → version x < version y →
        x.globalPosition ∈ before ∨ ∃ record, (x.globalPosition, record) ∈ s.acks

structure Inv (topics : OutboxTopics) (s : OrderOutbox) : Prop where
  rows : RowsInv s
  queued : ∀ x ∈ s.events, x.globalPosition ∈ s.outbox ∨
    AllAcked (Built topics s.events) s.acks x.globalPosition
  known : ∀ ack ∈ s.acks, ∃ x ∈ s.events, x.globalPosition = ack.1
  sound : Sound (Built topics s.events) s.acks s.bridge
  led : Led s (s.bridge.stage.left.map (·.1))
  inOrder : FirstAcksInOrder s

theorem version_le_among {rows : List StoredEvent} {order : String} {x : StoredEvent}
    (member : x ∈ rows) (same : orderId x = order) : version x ≤ versionAmong rows order := by
  have among : x.record ∈ (rows.filter (orderId · = order)).map (·.record) :=
    List.mem_map.mpr ⟨x, List.mem_filter.mpr ⟨member, by simp [same]⟩, rfl⟩
  unfold versionAmong version
  generalize (rows.filter (orderId · = order)).map (·.record) = log at among
  induction log with
  | nil => cases among
  | cons record log ih =>
    simp only [currentVersion, List.foldr_cons] at ih ⊢
    rcases List.mem_cons.mp among with first | rest
    · rw [first]
      exact Nat.le_max_left _ _
    · exact Nat.le_trans (ih rest) (Nat.le_max_right _ _)

theorem all_rows_perm {s : OrderOutbox} {i : Nat} {tx : Tx} (there : s.txs[i]? = some tx) :
    (allRows s).Perm (s.events ++ (tx.inserted ++ (s.txs.eraseIdx i).flatMap (·.inserted))) :=
  ((perm_at there).flatMap_right _).append_left s.events

theorem apart_symm (a b : Tx) (apart : ∀ order ∈ a.locks, order ∉ b.locks) :
    ∀ order ∈ b.locks, order ∉ a.locks :=
  fun order inB inA => apart order inA inB

theorem rows_frame {s t : OrderOutbox} (inv : RowsInv s)
    (position : t.nextPosition = s.nextPosition) (events : t.events = s.events)
    (txs : t.txs = s.txs) : RowsInv t := by
  have rows : allRows t = allRows s := by simp [allRows, events, txs]
  constructor
  · simpa [rows, position] using inv.below
  · simpa [rows] using inv.distinct
  · simpa [txs] using inv.apart
  · simpa [txs] using inv.held
  · simpa [events] using inv.inStep
  · simpa [events, txs] using inv.sees
  · simpa [events, txs] using inv.later

theorem start_rows : RowsInv .start := by
  refine ⟨?_, ?_, .nil, ?_, ?_, ?_, ?_⟩ <;> simp [OrderOutbox.start, allRows, InStep]

theorem in_step_snoc {rows : List StoredEvent} {row : StoredEvent} (inStep : InStep rows)
    (last : ∀ x ∈ rows, x.globalPosition < row.globalPosition)
    (newest : ∀ x ∈ rows, orderId x = orderId row → version x < version row) :
    InStep (rows ++ [row]) := by
  intro x fromX y fromY same less
  rcases List.mem_append.mp fromX with oldX | newX
  · rcases List.mem_append.mp fromY with oldY | newY
    · exact inStep x oldX y oldY same less
    · cases List.mem_singleton.mp newY
      exact last x oldX
  · cases List.mem_singleton.mp newX
    rcases List.mem_append.mp fromY with oldY | newY
    · have := newest y oldY same.symm
      omega
    · cases List.mem_singleton.mp newY
      omega

theorem begin_rows {s : OrderOutbox} (inv : RowsInv s) :
    RowsInv { s with txs := s.txs ++ [⟨[], []⟩] } := by
  have same : allRows { s with txs := s.txs ++ [⟨[], []⟩] } = allRows s := by
    simp [allRows]
  refine ⟨by rw [same]; exact inv.below, by rw [same]; exact inv.distinct, ?_, ?_, inv.inStep,
    ?_, ?_⟩
  · refine List.pairwise_append.mpr ⟨inv.apart, List.pairwise_singleton _ _, ?_⟩
    intro tx _ new isNew order _
    cases List.mem_singleton.mp isNew
    exact List.not_mem_nil
  · simpa [or_imp, forall_and] using inv.held
  · simpa [or_imp, forall_and] using ⟨inv.sees, inv.inStep⟩
  · simpa [or_imp, forall_and] using inv.later

theorem lock_rows {s : OrderOutbox} {i : Nat} {tx : Tx} {order : String} (inv : RowsInv s)
    (there : s.txs[i]? = some tx)
    (free : ¬ (s.txs.eraseIdx i).any (order ∈ ·.locks)) :
    RowsInv { s with txs := s.txs.set i { tx with locks := order :: tx.locks } } := by
  have member := List.mem_of_getElem? there
  have within : i < s.txs.length := (List.getElem?_eq_some_iff.mp there).1
  have same : (allRows { s with
      txs := s.txs.set i { tx with locks := order :: tx.locks } }).Perm (allRows s) := by
    refine (all_rows_perm (i := i) (List.getElem?_set_self within)).trans ?_
    rw [List.eraseIdx_set_eq]
    exact (all_rows_perm there).symm
  refine ⟨?_, ?_, ?_, ?_, inv.inStep, ?_, ?_⟩
  · exact fun x from_ => inv.below x (same.mem_iff.mp from_)
  · exact (same.map _).nodup_iff.mpr inv.distinct
  · refine pairwise_set apart_symm inv.apart i ?_
    intro other elsewhere order' holds
    rcases List.mem_cons.mp holds with rfl | old
    · intro held
      exact free (List.any_eq_true.mpr ⟨other, elsewhere, by simpa using held⟩)
    · exact pairwise_others apart_symm inv.apart i there other elsewhere order' old
  · refine forall_mem_set inv.held fun x from_ => ?_
    exact List.mem_cons_of_mem _ (inv.held tx member x from_)
  · exact forall_mem_set inv.sees (inv.sees tx member)
  · exact forall_mem_set inv.later (inv.later tx member)

theorem insert_rows {s : OrderOutbox} {i : Nat} {tx : Tx} {event : OrderDomainEvent}
    (inv : RowsInv s) (there : s.txs[i]? = some tx) (locked : event.orderId ∈ tx.locks)
    {row : StoredEvent} (made : row = ⟨s.nextPosition,
      ⟨versionAmong (s.events ++ tx.inserted) event.orderId + 1, event⟩⟩) :
    RowsInv { s with
      nextPosition := s.nextPosition + 1
      txs := s.txs.set i { tx with inserted := tx.inserted ++ [row] } } := by
  have member := List.mem_of_getElem? there
  have within : i < s.txs.length := (List.getElem?_eq_some_iff.mp there).1
  have position : row.globalPosition = s.nextPosition := by rw [made]
  have order : orderId row = event.orderId := by rw [made]; rfl
  have seen : ∀ x ∈ s.events ++ tx.inserted, x ∈ allRows s := by
    intro x from_
    refine (all_rows_perm there).mem_iff.mpr ?_
    rcases List.mem_append.mp from_ with committed | own
    · exact List.mem_append_left _ committed
    · exact List.mem_append_right _ (List.mem_append_left _ own)
  have newest : ∀ x ∈ s.events ++ tx.inserted, orderId x = orderId row →
      version x < version row := by
    intro x from_ same
    have highest := version_le_among from_ (same.trans order)
    rw [made]
    exact Nat.lt_succ_of_le highest
  have grown : (allRows { s with
      nextPosition := s.nextPosition + 1
      txs := s.txs.set i { tx with inserted := tx.inserted ++ [row] } }).Perm
        (row :: allRows s) := by
    refine (all_rows_perm (i := i) (List.getElem?_set_self within)).trans ?_
    simp only [List.eraseIdx_set_eq, List.append_assoc, List.singleton_append]
    rw [← List.append_assoc]
    refine List.perm_middle.trans ((List.Perm.cons row ?_))
    rw [List.append_assoc]
    exact (all_rows_perm there).symm
  refine ⟨?_, ?_, ?_, ?_, inv.inStep, ?_, ?_⟩
  · intro x from_
    rcases List.mem_cons.mp (grown.mem_iff.mp from_) with rfl | old
    · show x.globalPosition < s.nextPosition + 1
      omega
    · exact Nat.lt_succ_of_lt (inv.below x old)
  · refine (grown.map _).nodup_iff.mpr (List.nodup_cons.mpr ⟨?_, inv.distinct⟩)
    intro taken
    obtain ⟨x, old, same⟩ := List.mem_map.mp taken
    exact absurd (inv.below x old) (by simp_all)
  · refine pairwise_set apart_symm inv.apart i ?_
    exact fun other elsewhere order' holds =>
      pairwise_others apart_symm inv.apart i there other elsewhere order' holds
  · refine forall_mem_set inv.held fun x from_ => ?_
    rcases List.mem_append.mp from_ with old | new
    · exact inv.held tx member x old
    · cases List.mem_singleton.mp new
      exact order ▸ locked
  · refine forall_mem_set inv.sees ?_
    rw [← List.append_assoc]
    refine in_step_snoc (inv.sees tx member) (fun x from_ => ?_) newest
    exact position ▸ inv.below x (seen x from_)
  · refine forall_mem_set inv.later ?_
    intro x from_ y fromY same
    rcases List.mem_append.mp fromY with old | new
    · exact inv.later tx member x from_ y old same
    · cases List.mem_singleton.mp new
      exact newest x (List.mem_append_left _ from_) same

theorem abort_rows {s : OrderOutbox} (inv : RowsInv s) (i : Nat) :
    RowsInv { s with txs := s.txs.eraseIdx i } := by
  have fewer : ∀ tx ∈ s.txs.eraseIdx i, tx ∈ s.txs := fun tx => List.mem_of_mem_eraseIdx
  have sublist : (allRows { s with txs := s.txs.eraseIdx i }).Sublist (allRows s) :=
    ((List.eraseIdx_sublist _ _).flatMap _).append_left s.events
  refine ⟨?_, ?_, ?_, ?_, inv.inStep, ?_, ?_⟩
  · exact fun x from_ => inv.below x (sublist.subset from_)
  · exact (sublist.map _).nodup inv.distinct
  · exact inv.apart.sublist (List.eraseIdx_sublist _ _)
  · exact fun tx member => inv.held tx (fewer tx member)
  · exact fun tx member => inv.sees tx (fewer tx member)
  · exact fun tx member => inv.later tx (fewer tx member)

theorem commit_rows {s : OrderOutbox} {i : Nat} {tx : Tx} (inv : RowsInv s)
    (there : s.txs[i]? = some tx) (outbox : List Nat) :
    RowsInv { s with
      events := s.events ++ tx.inserted, outbox := outbox, txs := s.txs.eraseIdx i } := by
  have member := List.mem_of_getElem? there
  have fewer : ∀ tx ∈ s.txs.eraseIdx i, tx ∈ s.txs := fun tx => List.mem_of_mem_eraseIdx
  have others : ∀ other ∈ s.txs.eraseIdx i, ∀ x ∈ tx.inserted, ∀ y ∈ other.inserted,
      orderId x ≠ orderId y := by
    intro other elsewhere x own y theirs same
    have held := inv.held tx member x own
    have elsewhere' := pairwise_others apart_symm inv.apart i there other elsewhere _ held
    exact elsewhere' (same ▸ inv.held other (fewer other elsewhere) y theirs)
  have same : (allRows { s with
      events := s.events ++ tx.inserted, outbox := outbox, txs := s.txs.eraseIdx i }).Perm
        (allRows s) := by
    refine .trans ?_ (all_rows_perm there).symm
    simp [allRows]
  refine ⟨?_, ?_, ?_, ?_, inv.sees tx member, ?_, ?_⟩
  · exact fun x from_ => inv.below x (same.mem_iff.mp from_)
  · exact (same.map _).nodup_iff.mpr inv.distinct
  · exact inv.apart.sublist (List.eraseIdx_sublist _ _)
  · exact fun other elsewhere => inv.held other (fewer other elsewhere)
  · intro other elsewhere x fromX y fromY sameOrder less
    simp only [List.mem_append] at fromX fromY
    rcases fromX with (oldX | ownX) | theirsX
    · rcases fromY with (oldY | ownY) | theirsY
      · exact inv.inStep x oldX y oldY sameOrder less
      · exact inv.sees tx member x (by simp [oldX]) y (by simp [ownY]) sameOrder less
      · exact inv.sees other (fewer other elsewhere) x (by simp [oldX]) y (by simp [theirsY])
          sameOrder less
    · rcases fromY with (oldY | ownY) | theirsY
      · exact inv.sees tx member x (by simp [ownX]) y (by simp [oldY]) sameOrder less
      · exact inv.sees tx member x (by simp [ownX]) y (by simp [ownY]) sameOrder less
      · exact absurd sameOrder (others other elsewhere x ownX y theirsY)
    · rcases fromY with (oldY | ownY) | theirsY
      · exact inv.sees other (fewer other elsewhere) x (by simp [theirsX]) y (by simp [oldY])
          sameOrder less
      · exact absurd sameOrder.symm (others other elsewhere y ownY x theirsX)
      · exact inv.sees other (fewer other elsewhere) x (by simp [theirsX]) y (by simp [theirsY])
          sameOrder less
  · intro other elsewhere x fromX y fromY sameOrder
    rcases List.mem_append.mp fromX with old | own
    · exact inv.later other (fewer other elsewhere) x old y fromY sameOrder
    · exact absurd sameOrder (others other elsewhere x own y fromY)

variable {topics : OutboxTopics} {s t : OrderOutbox}

theorem start_inv : Inv topics .start := by
  refine ⟨start_rows, ?_, ?_, start_sound, ?_, ?_⟩
  · simp [OrderOutbox.start]
  · simp [OrderOutbox.start]
  · simp [Led, OrderOutbox.start]
  · simp [FirstAcksInOrder, OrderOutbox.start]

theorem rows_keep (inv : Inv topics s) {position : Nat} {txs : List Tx}
    (rows : RowsInv { s with nextPosition := position, txs := txs }) :
    Inv topics { s with nextPosition := position, txs := txs } :=
  ⟨rows, inv.queued, inv.known, inv.sound, inv.led, inv.inOrder⟩

theorem built_more {events more : List StoredEvent} (position : Nat) (records : List OutboxRecord)
    (built : Built topics events position records) :
    Built topics (events ++ more) position records := by
  obtain ⟨x, member, rest⟩ := built
  exact ⟨x, List.mem_append_left _ member, rest⟩

/-- A committed transaction's events are new: none of them was sent or acknowledged,
    and none precedes an event of its order that was there. -/
theorem commit_keeps {i : Nat} {tx : Tx} (inv : Inv topics s) (there : s.txs[i]? = some tx) :
    Inv topics { s with
      events := s.events ++ tx.inserted
      outbox := s.outbox ++ tx.inserted.map (·.globalPosition)
      txs := s.txs.eraseIdx i } := by
  have member := List.mem_of_getElem? there
  have rows := commit_rows inv.rows there (s.outbox ++ tx.inserted.map (·.globalPosition))
  have fresh : ∀ x ∈ s.events, ∀ y ∈ tx.inserted, y.globalPosition ≠ x.globalPosition := by
    intro x old y new same
    have distinct := ((all_rows_perm there).map (·.globalPosition)).nodup_iff.mp inv.rows.distinct
    simp only [List.map_append] at distinct
    exact (List.nodup_append.mp distinct).2.2 _ (List.mem_map_of_mem old) _
      (List.mem_append_left _ (List.mem_map_of_mem new)) same.symm
  have lower : ∀ x ∈ s.events ++ tx.inserted, ∀ y ∈ s.events, orderId x = orderId y →
      version x < version y → x ∈ s.events := by
    intro x from_ y old same less
    rcases List.mem_append.mp from_ with already | new
    · exact already
    · exact absurd (inv.rows.later tx member y old x new same.symm) (by omega)
  refine ⟨rows, ?_, ?_, ?_, ?_, ?_⟩
  · intro x from_
    rcases List.mem_append.mp from_ with old | new
    · refine (inv.queued x old).imp (List.mem_append_left _) ?_
      exact all_acked_mono (built_more x.globalPosition) (List.Subset.refl _)
    · exact Or.inl (List.mem_append_right _ (List.mem_map_of_mem new))
  · intro ack acked
    obtain ⟨x, old, same⟩ := inv.known ack acked
    exact ⟨x, List.mem_append_left _ old, same⟩
  · exact sound_mono built_more (List.Subset.refl _) inv.sound
  · intro before position after split_ y fromY at_ x fromX same less
    have sent : y ∈ s.events := by
      rcases List.mem_append.mp fromY with old | new
      · exact old
      · obtain ⟨item, left, same'⟩ := List.mem_map.mp
          (split_ ▸ List.mem_append_right _ List.mem_cons_self)
        obtain ⟨_, ⟨z, old, there', _⟩, _⟩ := inv.sound.sending item left
        exact absurd (at_.trans (same'.symm.trans there'.symm)) (fresh z old y new)
    exact inv.led before position after split_ y sent at_ x (lower x fromX y sent same less) same
      less
  · intro x fromX y fromY same less n record found
    have acked : y ∈ s.events := by
      rcases List.mem_append.mp fromY with old | new
      · exact old
      · obtain ⟨z, old, at_⟩ := inv.known _ (List.mem_of_getElem? found)
        exact absurd at_.symm (fresh z old y new)
    exact inv.inOrder x (lower x fromX y acked same less) y acked same less n record found

/-- An entry removed or past sending has an acknowledgement, since no event becomes
    no record. -/
theorem acked_once {events : List StoredEvent} {acks : List (Nat × OutboxRecord)}
    {position : Nat} (all : AllAcked (Built topics events) acks position) :
    ∃ record, (position, record) ∈ acks := by
  obtain ⟨records, ⟨x, _, _, orderState, rfl⟩, acked⟩ := all
  obtain ⟨record, member⟩ := List.exists_mem_of_ne_nil _ (records_nonempty _ topics)
  exact ⟨record, acked record member⟩

theorem fetched_led (inv : Inv topics s) (orderState : String → Option OrderContext)
    (limit : Nat) :
    Led s ((fetchBatch s.outbox s.events orderState limit).map (·.globalPosition)) := by
  intro before position after split_ y fromY at_ x fromX same less
  rcases inv.queued x fromX with queued | removed
  · left
    have positions : (fetchBatch s.outbox s.events orderState limit).map (·.globalPosition) =
        ((queuedEvents s.outbox s.events).map (·.globalPosition)).take limit := by
      simp [fetchBatch, toRow, List.map_take, Function.comp_def]
    have sorted : ((queuedEvents s.outbox s.events).map (·.globalPosition)).Pairwise (· ≤ ·) := by
      exact List.pairwise_map.mpr (queued_sorted s.outbox s.events)
    have there : x.globalPosition ∈ (queuedEvents s.outbox s.events).map (·.globalPosition) :=
      List.mem_map_of_mem (mem_queued.mpr ⟨fromX, queued⟩)
    have lower := inv.rows.inStep x fromX y fromY same less
    rw [positions] at split_
    rw [← List.take_append_drop limit ((queuedEvents s.outbox s.events).map _), split_,
      List.append_assoc] at sorted there
    rcases List.mem_append.mp there with first | rest
    · exact first
    · have bound := (List.pairwise_append.mp sorted).2.1
      rcases List.mem_cons.mp rest with here | beyond
      · omega
      · have := (List.pairwise_cons.mp bound).1 _ beyond
        omega
  · exact Or.inr (acked_once removed)

theorem fetch_keeps {limit : Nat} {orderState : String → Option OrderContext} (inv : Inv topics s)
    (next : step topics s (.fetch limit orderState) = some t) : Inv topics t := by
  simp only [step, Option.map_eq_some_iff] at next
  obtain ⟨bridge, fetches, rfl⟩ := next
  refine ⟨rows_frame inv.rows rfl rfl rfl, inv.queued, inv.known,
    fetch_sound inv.sound ?_ fetches, ?_, inv.inOrder⟩
  · intro item member
    obtain ⟨row, fetched, rfl⟩ := List.mem_map.mp member
    obtain ⟨x, queued, rfl⟩ := List.mem_map.mp fetched
    have there : x ∈ s.events := (mem_queued.mp (List.mem_of_mem_take queued)).1
    exact ⟨x, there, rfl, orderState, rfl⟩
  · have batch := fetched_led inv orderState limit
    unfold Bridge.fetch at fetches
    split at fetches
    · cases fetches
      simpa [Led, Stage.left, Function.comp_def] using batch
    · cases fetches
    · cases fetches

theorem move_keeps {m : Move} (inv : Inv topics s) (next : step topics s (.move m) = some t) :
    Inv topics t := by
  simp only [step, Option.map_eq_some_iff] at next
  obtain ⟨effect, moves, rfl⟩ := next
  have moved := move_moved moves
  have more : s.acks ⊆ s.acks ++ effect.acked := List.subset_append_left _ _
  have led_of : ∀ positions, Led s positions →
      Led { s with bridge := effect.bridge, acks := s.acks ++ effect.acked
                   outbox := s.outbox.filter (· ∉ effect.removed) } positions := by
    intro positions led before position after split_ y fromY at_ x fromX same less
    refine (led before position after split_ y fromY at_ x fromX same less).imp_right ?_
    exact fun ⟨record, acked⟩ => ⟨record, more acked⟩
  refine ⟨rows_frame inv.rows rfl rfl rfl, ?_, ?_, move_sound inv.sound moved, ?_, ?_⟩
  · intro x from_
    rcases inv.queued x from_ with queued | removed
    · by_cases gone : x.globalPosition ∈ effect.removed
      · exact Or.inr (all_acked_mono (fun _ => id) more (removed_acked inv.sound moved _ gone))
      · exact Or.inl (List.mem_filter.mpr ⟨queued, by simpa using gone⟩)
    · exact Or.inr (all_acked_mono (fun _ => id) more removed)
  · intro ack acked
    rcases List.mem_append.mp acked with old | new
    · exact inv.known ack old
    · cases moved with
      | sent at_ =>
        cases List.mem_singleton.mp new
        obtain ⟨_, ⟨x, from_, there, _⟩, _⟩ := inv.sound.sending _ (by
          rw [at_]; exact List.mem_cons_self)
        exact ⟨x, from_, there⟩
      | failed | settled | finished | removed | stopped | cutOff | landed => cases new
  · cases moved with
    | sent at_ =>
      refine led_of _ ?_
      simpa [at_, Stage.left] using inv.led
    | @settled position left acked at_ =>
      intro before next after split_ y fromY there x fromX same less
      have led := inv.led
      rw [at_] at led
      have rest : left.map (·.1) = before ++ next :: after := split_
      rcases led (position :: before) next after (by simp [Stage.left, rest]) y fromY
        there x fromX same less with first | earlier
      · rcases List.mem_cons.mp first with here | between
        · right
          obtain ⟨sent, built, acked⟩ := inv.sound.sending (position, []) (by
            rw [at_]; exact List.mem_cons_self)
          obtain ⟨record, sent⟩ := acked_once ⟨sent, by simpa using built, acked⟩
          exact ⟨record, more (here ▸ sent)⟩
        · exact Or.inl between
      · exact Or.inr (earlier.imp fun _ => @more _)
    | landed at_ => exact led_of _ inv.led
    | failed | finished | removed | stopped | cutOff =>
      intro before next after split_
      simp [silent, Stage.left] at split_
  · intro x fromX y fromY same less n record found
    rw [List.getElem?_append] at found
    split at found
    · rename_i within
      obtain ⟨m, before, earlier, there⟩ := inv.inOrder x fromX y fromY same less n record found
      refine ⟨m, before, earlier, ?_⟩
      rw [List.getElem?_append_left (by omega)]
      exact there
    · rename_i beyond
      cases moved with
      | @sent position record' records left acked at_ =>
        have here : (position, record') = (y.globalPosition, record) :=
          List.mem_singleton.mp (List.mem_of_getElem? found) |>.symm
        have led := inv.led
        rw [at_] at led
        rcases led [] position (left.map (·.1)) (by simp [Stage.left]) y fromY
          (Prod.mk.inj here).1.symm x fromX same less with none_ | ⟨earlier, acked⟩
        · cases none_
        · obtain ⟨m, there⟩ := List.mem_iff_getElem?.mp acked
          have inside := (List.getElem?_eq_some_iff.mp there).1
          refine ⟨m, by omega, earlier, ?_⟩
          rw [List.getElem?_append_left inside]
          exact there
      | failed | settled | finished | removed | stopped | cutOff | landed =>
        simp [silent] at found

theorem step_keeps {a : Action} (inv : Inv topics s) (next : step topics s a = some t) :
    Inv topics t := by
  cases a with
  | begin =>
    cases next
    exact rows_keep inv (begin_rows inv.rows)
  | lock i order =>
    simp only [step] at next
    split at next
    · cases next
    · split at next
      · cases next
      · rename_i there free
        cases next
        exact rows_keep inv (lock_rows inv.rows there free)
  | insert i event =>
    simp only [step] at next
    split at next
    · cases next
    · rename_i there
      split at next
      · rename_i locked
        cases next
        exact rows_keep inv (insert_rows inv.rows there locked rfl)
      · cases next
  | commit i =>
    simp only [step] at next
    split at next
    · cases next
    · rename_i there
      cases next
      exact commit_keeps inv there
  | abort i =>
    cases next
    exact rows_keep inv (abort_rows inv.rows i)
  | fetch limit orderState => exact fetch_keeps inv next
  | move m => exact move_keeps inv next

theorem same_position (inv : RowsInv s) {x y : StoredEvent} (fromX : x ∈ s.events)
    (fromY : y ∈ s.events) (same : x.globalPosition = y.globalPosition) : x = y := by
  have distinct := inv.distinct
  rw [allRows, List.map_append] at distinct
  exact List.inj_on_of_nodup_map (List.nodup_append.mp distinct).1 fromX fromY same

theorem events_grow {a : Action} (inv : RowsInv s) (next : step topics s a = some t) :
    ∃ more, t.events = s.events ++ more ∧
      ∀ x ∈ s.events, ∀ y ∈ more, orderId x = orderId y → version x < version y := by
  have still : t.events = s.events → ∃ more, t.events = s.events ++ more ∧
      ∀ x ∈ s.events, ∀ y ∈ more, orderId x = orderId y → version x < version y := by
    intro same
    exact ⟨[], by simp [same], by simp⟩
  cases a with
  | begin | abort i =>
    cases next
    exact still rfl
  | lock i order | insert i event =>
    simp only [step] at next
    split at next
    · cases next
    · split at next <;> cases next
      exact still rfl
  | commit i =>
    simp only [step] at next
    split at next
    · cases next
    · rename_i there
      cases next
      exact ⟨_, rfl, inv.later _ (List.mem_of_getElem? there)⟩
  | fetch limit orderState | move m =>
    simp only [step, Option.map_eq_some_iff] at next
    obtain ⟨_, _, rfl⟩ := next
    exact still rfl

theorem inv_delivers (inv : Inv topics s) : Delivers topics s := by
  refine ⟨fun x from_ => ?_, inv.inOrder⟩
  refine (inv.queued x from_).imp_right ?_
  rintro ⟨records, ⟨y, fromY, same, orderState, rfl⟩, acked⟩
  cases same_position inv.rows fromY from_ same
  exact ⟨orderState, acked⟩

end OmsOrderOutbox
