import OpenOms.Systems.JobRuns

/-!
What a connection's page shows of its universe, from the latest of its universe jobs,
against the index that keeps a second one out.
-/
namespace OmsUniverseJobs
open OmsJobs OmsJobRuns PartialIndex Runs Lists

/-- Jobs are recorded at later and later times. -/
def Ticks (s : Jobs) : Action → Prop
  | .insert _ now _ => ∀ row ∈ s.rows, row.createdAt < now
  | _ => True

instance (s : Jobs) (a : Action) : Decidable (Ticks s a) := by
  cases a <;> unfold Ticks <;> infer_instance

def Loads (rows : List JobRow) (subject : String) : Prop :=
  ∃ row ∈ universeJobs rows subject, row.status.active = true

/-- The page is loading, and a request for another load is told that one runs, exactly
    while the index would refuse its job. -/
structure Shown (s : Jobs) : Prop where
  loading : ∀ subject last, LatestUniverseJob s.rows subject last → ∀ count,
    (deriveUniverseState last count).1 = .loading ↔ Loads s.rows subject
  told : ∀ subject last, LatestUniverseJob s.rows subject last →
    ((∃ job, last = some job ∧ job.status.active = true) ↔ Loads s.rows subject)
  refused : ∀ subject kind, kind.writesUniverse = true → ∀ startedBy now,
    insert indexKey s.rows (.queued kind (some subject) startedBy now) = none ↔
      Loads s.rows subject

def SameUniverse (a b : JobRow) : Prop :=
  a.kind.writesUniverse = true ∧ b.kind.writesUniverse = true ∧ a.subject = b.subject ∧
    a.subject.isSome = true

structure Ordered (rows : List JobRow) : Prop where
  clock : rows.Pairwise fun a b => a.createdAt < b.createdAt
  settled : rows.Pairwise fun a b => SameUniverse a b → a.status.active = false

def Quiet (row new : JobRow) : Prop := new.status.active = true → row.status.active = true

theorem same_universe_left {a new b : JobRow} (same : SameJob a new) (both : SameUniverse new b) :
    SameUniverse a b := by
  obtain ⟨left, right, subject, some_⟩ := both
  exact ⟨same.1 ▸ left, right, same.2.1 ▸ subject, same.2.1 ▸ some_⟩

theorem same_universe_right {a b new : JobRow} (same : SameJob b new) (both : SameUniverse a new) :
    SameUniverse a b := by
  obtain ⟨left, right, subject, some_⟩ := both
  exact ⟨left, same.1 ▸ right, same.2.1 ▸ subject, some_⟩

theorem modify_ordered {rows : List JobRow} {i : Nat} {change : JobRow → JobRow}
    (ordered : Ordered rows) (same : ∀ row, SameJob row (change row))
    (quiet : ∀ row ∈ rows[i]?, Quiet row (change row)) : Ordered (rows.modify i change) where
  clock := by
    refine pairwise_modify ordered.clock ?_ ?_
    · intro row _ other before
      rw [(same row).2.2.2]
      exact before
    · intro row _ other before
      rw [(same row).2.2.2]
      exact before
  settled := by
    refine pairwise_modify ordered.settled ?_ ?_
    · intro row there other settled both
      have over_ := settled (same_universe_left (same row) both)
      by_contra active
      rw [quiet row there (Bool.not_eq_false _ |>.mp active)] at over_
      cases over_
    · intro row _ other settled both
      exact settled (same_universe_right (same row) both)

theorem interrupted_ordered {rows : List JobRow} (ordered : Ordered rows) :
    Ordered (markInterrupted rows) where
  clock := by
    rw [markInterrupted, List.pairwise_map]
    refine ordered.clock.imp ?_
    intro a b before
    rw [(interrupt_same a).2.2.2, (interrupt_same b).2.2.2]
    exact before
  settled := by
    rw [markInterrupted, List.pairwise_map]
    exact ordered.settled.imp fun _ _ => interrupted_inactive _

theorem inserted_ordered {rows next : List JobRow} {kind : JobKind} {subject : Option String}
    {startedBy : String} {now : Nat} (ordered : Ordered rows)
    (later : ∀ row ∈ rows, row.createdAt < now)
    (done : insert indexKey rows (.queued kind subject startedBy now) = some next) :
    Ordered next := by
  obtain ⟨apart, rfl⟩ := insert_some done
  constructor
  · refine List.pairwise_append.mpr ⟨ordered.clock, List.pairwise_singleton _ _, ?_⟩
    intro a there b new
    rw [List.mem_singleton.mp new]
    exact later a there
  · refine List.pairwise_append.mpr ⟨ordered.settled, List.pairwise_singleton _ _, ?_⟩
    intro a there b new both
    rw [List.mem_singleton.mp new] at both
    obtain ⟨left, right, same, some_⟩ := both
    obtain ⟨name, own⟩ := Option.isSome_iff_exists.mp some_
    by_contra active
    have on := Bool.not_eq_false _ |>.mp active
    have keyed : ∀ kind : JobKind, kind.writesUniverse = true → kind.key name = .inl name :=
      fun kind writes => if_pos writes
    have here : .inl name ∈ indexKey a := index_key_iff.mpr ⟨on, name, own, keyed _ left⟩
    refine apart a there _ here (index_key_iff.mpr ⟨rfl, name, ?_, keyed _ right⟩)
    rw [← same, own]

theorem write_rows (rows : List JobRow) (id : Nat) (change : JobRow → JobRow) (reply : Reply) :
    (write rows id change reply).1 = rows ∨
      (write rows id change reply).1 = rows.modify id change := by
  unfold write
  split
  · rename_i done
    exact Or.inr (update_some done)
  · rename_i done
    exact Or.inr (update_some done)
  · exact Or.inl rfl

theorem written_ordered {rows : List JobRow} {id : Nat} {change : JobRow → JobRow} (reply : Reply)
    (ordered : Ordered rows) (same : ∀ row, SameJob row (change row))
    (quiet : ∀ row ∈ rows[id]?, Quiet row (change row)) :
    Ordered (write rows id change reply).1 := by
  rcases write_rows rows id change reply with is | is
  · rw [is]
    exact ordered
  · rw [is]
    exact modify_ordered ordered same quiet

theorem insert_rows {s : Jobs} {c : Nat} {call : Call} {left now : Nat} {reply : Reply} :
    (insertStep s c call left now reply).rows = s.rows ∨
      insert indexKey s.rows (.queued call.kind call.subject call.startedBy now) =
        some (insertStep s c call left now reply).rows := by
  unfold insertStep
  dsimp only
  split
  · rename_i done
    exact Or.inr done
  · rename_i done
    exact Or.inr done
  · exact Or.inl rfl
  · exact Or.inl rfl

theorem look_up_rows (s : Jobs) (c : Nat) (call : Call) (left : Nat) (ok : Bool) :
    (lookUpStep s c call left ok).rows = s.rows := by
  unfold lookUpStep
  split
  · split <;> rfl
  · rfl

theorem record_rows (s : Jobs) (t : Nat) (task : Task) (outcome : Outcome) (left : Nat)
    (reply : Reply) : (recordStep s t task outcome left reply).rows =
      (write s.rows task.job (recorded outcome) reply).1 := by
  unfold recordStep
  dsimp only
  split
  · rfl
  · rfl
  · split <;> rfl

theorem step_ordered {s next : Jobs} {a : Action} (inv : Inv s) (ordered : Ordered s.rows)
    (ticks : Ticks s a) (taken : step s a = some next) : Ordered next.rows := by
  unfold step at taken
  split at taken
  · cases taken
    exact ordered
  · split at taken
    · split at taken <;> cases taken
      rcases insert_rows with same | done
      · rw [same]
        exact ordered
      · exact inserted_ordered ordered ticks done
    · cases taken
  · split at taken
    · split at taken <;> cases taken
      rw [look_up_rows]
      exact ordered
    · cases taken
  · split at taken <;> cases taken
    exact ordered
  · split at taken
    · rename_i there
      split at taken <;> cases taken
      rename_i own
      obtain ⟨row, fits, active⟩ := busy_active inv (List.mem_of_getElem? there) (by rw [own]; rfl)
      refine written_ordered _ ordered (fun _ => ⟨rfl, rfl, rfl, rfl⟩) ?_
      intro r at_ _
      rw [Option.mem_def, fits.there] at at_
      cases at_
      exact active
    · cases taken
  · split at taken
    · split at taken <;> cases taken
      exact written_ordered _ ordered (fun _ => ⟨rfl, rfl, rfl, rfl⟩) fun _ _ => id
    · cases taken
  · split at taken
    · split at taken <;> cases taken <;> exact ordered
    · cases taken
  · split at taken
    · split at taken <;> cases taken
      rw [record_rows]
      refine written_ordered _ ordered (recorded_same _) fun row _ active => ?_
      rw [recorded_over] at active
      cases active
    · cases taken
  · cases taken
    unfold restartStep
    dsimp only
    split
    · exact ordered
    · exact interrupted_ordered ordered

theorem mem_universe_jobs {rows : List JobRow} {subject : String} {row : JobRow} :
    row ∈ universeJobs rows subject ↔
      row ∈ rows ∧ row.kind.writesUniverse = true ∧ row.subject = some subject := by
  simp [universeJobs, JobKind.writesUniverse]

/-- A job behind which another was recorded is not the one at work, and one that is
    recorded before another is not the latest. -/
theorem latest_active {rows : List JobRow} {subject : String} {job row : JobRow}
    (ordered : Ordered rows) (latest : LatestUniverseJob rows subject (some job))
    (there : row ∈ universeJobs rows subject) (active : row.status.active = true) : job = row := by
  obtain ⟨member, newest⟩ := latest
  obtain ⟨here, writes, own⟩ := mem_universe_jobs.mp member
  obtain ⟨at_, too, named⟩ := mem_universe_jobs.mp there
  obtain ⟨i, boundI, rfl⟩ := List.getElem_of_mem here
  obtain ⟨j, boundJ, rfl⟩ := List.getElem_of_mem at_
  rcases Nat.lt_trichotomy i j with before | same | behind
  · have older := List.pairwise_iff_getElem.mp ordered.clock i j boundI boundJ before
    exact absurd older (Nat.not_lt.mpr (newest _ there))
  · subst same
    rfl
  · have over_ := List.pairwise_iff_getElem.mp ordered.settled j i boundJ boundI behind
      ⟨too, writes, named.trans own.symm, by rw [named]; rfl⟩
    rw [active] at over_
    cases over_

theorem told_iff {rows : List JobRow} {subject : String} {last : Option JobRow}
    (ordered : Ordered rows) (latest : LatestUniverseJob rows subject last) :
    (∃ job, last = some job ∧ job.status.active = true) ↔ Loads rows subject := by
  constructor
  · rintro ⟨job, rfl, active⟩
    exact ⟨job, latest.1, active⟩
  · rintro ⟨row, there, active⟩
    cases last with
    | none =>
      have none_ : universeJobs rows subject = [] := latest
      rw [none_] at there
      cases there
    | some job =>
      have same := latest_active ordered latest there active
      exact ⟨job, rfl, by rw [same]; exact active⟩

theorem loading_iff (last : Option JobRow) (count : Int) :
    (deriveUniverseState last count).1 = .loading ↔
      ∃ job, last = some job ∧ job.status.active = true := by
  cases last with
  | none =>
    simp only [deriveUniverseState]
    split <;> simp
  | some job =>
    simp only [Option.some.injEq, exists_eq_left']
    cases status : job.status <;> simp only [deriveUniverseState, status, JobStatus.active]
    case succeeded => repeat' split <;> simp
    all_goals simp

theorem refused_iff {rows : List JobRow} {subject : String} {kind : JobKind}
    (writes : kind.writesUniverse = true) (startedBy : String) (now : Nat) :
    insert indexKey rows (.queued kind (some subject) startedBy now) = none ↔
      Loads rows subject := by
  have keyed : ∀ kind : JobKind, kind.writesUniverse = true → kind.key subject = .inl subject :=
    fun kind writes => if_pos writes
  have new : .inl subject ∈ indexKey (.queued kind (some subject) startedBy now) :=
    index_key_iff.mpr ⟨rfl, subject, rfl, keyed kind writes⟩
  constructor
  · intro refused
    obtain ⟨row, there, k, here, met⟩ := insert_none refused
    obtain ⟨active, name, own, same⟩ := index_key_iff.mp here
    have is : k = .inl subject := Option.some.inj (met.symm.trans new)
    rw [is, ← keyed kind writes] at same
    obtain ⟨blocked, rfl⟩ := key_blocks same
    have too : row.kind.writesUniverse = true := by
      rw [blockingKinds, if_pos writes] at blocked
      exact List.contains_iff_mem.mpr blocked
    exact ⟨row, mem_universe_jobs.mpr ⟨there, too, own⟩, active⟩
  · rintro ⟨row, there, active⟩
    obtain ⟨member, too, own⟩ := mem_universe_jobs.mp there
    cases done : insert indexKey rows (.queued kind (some subject) startedBy now) with
    | none => rfl
    | some next =>
      have here := index_key_iff.mpr ⟨active, subject, own, keyed _ too⟩
      exact absurd new ((insert_some done).1 row member _ here)

theorem ordered_shown {s : Jobs} (ordered : Ordered s.rows) : Shown s where
  loading := by
    intro subject last latest count
    rw [loading_iff, told_iff ordered latest]
  told := fun _ _ latest => told_iff ordered latest
  refused := fun _ _ writes startedBy now => refused_iff writes startedBy now

structure Kept (s : Jobs) : Prop where
  inv : Inv s
  ordered : Ordered s.rows

theorem start_kept : Kept .start where
  inv := start_inv
  ordered := ⟨List.Pairwise.nil, List.Pairwise.nil⟩

theorem step_kept {s next : Jobs} {a : Action} (kept : Kept s) (ticks : Ticks s a)
    (taken : step s a = some next) : Kept next where
  inv := step_keeps kept.inv taken
  ordered := step_ordered kept.inv kept.ordered ticks taken

/-- With jobs recorded one after the other, what the page and the request before a load
    take from the latest job is what the index decides. -/
theorem universe_shown (acts : List Action) (ticks : Along step Ticks .start acts) :
    Throughout step Shown .start acts :=
  throughout_mono (fun _ kept => ordered_shown kept.ordered)
    (throughout_along (fun _ _ _ kept ok taken => step_kept kept ok taken) start_kept ticks)

/-- A load whose outcome is written at the second attempt, and an enrichment asked for
    while it runs and again when it is over. -/
def loadAndEnrich : List Action :=
  [.request .universeLoad (some "binance-live") "admin", .insert 0 10 .heard, .start 0 .heard,
    .request .enrichment (some "binance-live") "admin", .insert 1 20 .heard, .lookUp 1 true,
    .finish 0 (.ok ⟨some 0, none⟩), .record 0 .failed, .record 0 .heard,
    .request .enrichment (some "binance-live") "admin", .insert 2 30 .heard]

theorem load_and_enrich_shown : Throughout step Shown .start loadAndEnrich :=
  universe_shown loadAndEnrich (by decide)

end OmsUniverseJobs
