import OpenOms.Library.Runs
import OpenOms.Setup.Rotate
import Mathlib.Logic.Function.Basic

/-!
A key rotation beside a running server that saves, clears and creates connections
under the old key. The rotation reads each table without locks and writes the rows
back one by one; what it has written is locked until it commits.
-/
namespace OmsRotateAndSave
open OmsSecrets OmsRotate Keyed Runs

inductive Side where
  | broker
  | feed
  deriving DecidableEq, Repr

instance {P : Side → Prop} [DecidablePred P] : Decidable (∀ side, P side) :=
  decidable_of_iff (P .broker ∧ P .feed)
    ⟨fun both side => by cases side with | broker => exact both.1 | feed => exact both.2,
      fun all => ⟨all _, all _⟩⟩

abbrev RowId := Side × String

inductive Stage where
  | idle
  | updating (side : Side) (pending : List (String × Bytes))
  | over
  deriving DecidableEq

/-- The server's writes are counted by `clock`: `savedAt` is when a row's credential was last
    saved or cleared, `sourceAt` when the one in the stored blob was saved, `carried` the
    `sourceAt` of the blob that was read. -/
structure RotateAndSave where
  stored : Side → Connections
  stage : Stage
  written : Side → List (String × Bytes)
  clock : Nat
  savedAt : RowId → Nat
  sourceAt : RowId → Nat
  readAt : Side → Nat
  carried : RowId → Nat
  committedAt : Option Nat

def RotateAndSave.start (stored : Side → Connections) : RotateAndSave where
  stored := stored
  stage := .idle
  written _ := []
  clock := 0
  savedAt _ := 0
  sourceAt _ := 0
  readAt _ := 0
  carried _ := 0
  committedAt := none

inductive Action where
  | select
  | update
  | commit
  | abort
  | save (side : Side) (code : String) (nonce : Nonce) (plain : Bytes)
  | clear (side : Side) (code : String)
  | create (side : Side) (code : String)
  deriving DecidableEq

def saveBroker (t : Connections) (code : String) (blob : Bytes) : Option Connections :=
  if (t.find code).isSome then some (setCredentials t code blob) else none

def saveFeed (t : Connections) (code : String) (blob : Bytes) : Connections :=
  if (t.find code).isSome then setCredentials t code blob else t.insert ⟨code, some blob⟩

def saveCredentials (t : Connections) (code : String) (blob : Bytes) : Side → Option Connections
  | .broker => saveBroker t code blob
  | .feed => some (saveFeed t code blob)

def clearCredentials (t : Connections) (code : String) : Option Connections :=
  if (t.find code).isSome then
    some (t.update code (fun row => { row with credentials := none }) fun _ => rfl)
  else none

def createConnection (t : Connections) (code : String) : Connections := t.insert ⟨code, none⟩

def locked (s : RotateAndSave) (side : Side) (code : String) : Bool :=
  code ∈ (s.written side).map (·.1)

def store (s : RotateAndSave) (side : Side) (code : String) (t : Connections) : RotateAndSave :=
  { s with
    stored := Function.update s.stored side t
    clock := s.clock + 1
    savedAt := Function.update s.savedAt (side, code) (s.clock + 1)
    sourceAt := Function.update s.sourceAt (side, code) (s.clock + 1) }

def rollback (s : RotateAndSave) : RotateAndSave :=
  { s with stage := .over, written := fun _ => [] }

def startUpdates (s : RotateAndSave) (side : Side) (rewrapped : List (String × Bytes)) :
    RotateAndSave :=
  { s with
    stage := .updating side rewrapped
    readAt := Function.update s.readAt side s.clock
    carried := fun row => if row.1 = side then s.sourceAt row else s.carried row }

def commitTx (s : RotateAndSave) : RotateAndSave :=
  { s with
    stored := fun side => setAll (s.stored side) (s.written side)
    stage := .over
    written := fun _ => []
    sourceAt := fun row =>
      if row.2 ∈ (s.written row.1).map (·.1) then s.carried row else s.sourceAt row
    committedAt := some s.clock }

section
variable (aead : Aead) (nonces : String → Nonce) (old new : MasterKey)

/-- The `SELECT` of `rotate_table` and the re-wrapping of what it read. -/
def selectTable (s : RotateAndSave) (side : Side) : RotateAndSave :=
  match rewrapRows aead nonces old new (selectSealed (s.stored side)) with
  | .error _ => rollback s
  | .ok rewrapped => startUpdates s side rewrapped

def step (s : RotateAndSave) : Action → Option RotateAndSave
  | .select =>
    match s.stage with
    | .idle => some (selectTable aead nonces old new s .broker)
    | .updating .broker [] => some (selectTable aead nonces old new s .feed)
    | _ => none
  | .update =>
    match s.stage with
    | .updating side (pair :: pending) =>
      some { s with
        stage := .updating side pending
        written := Function.update s.written side (s.written side ++ [pair]) }
    | _ => none
  | .commit =>
    match s.stage with
    | .updating .feed [] => some (commitTx s)
    | _ => none
  | .abort => if s.stage = .over then none else some (rollback s)
  | .save side code nonce plain =>
    if locked s side code then none
    else
      (saveCredentials (s.stored side) code (sealWith aead old nonce code plain) side).map
        (store s side code)
  | .clear side code =>
    if locked s side code then none
    else (clearCredentials (s.stored side) code).map (store s side code)
  | .create side code =>
    some { s with
      stored := Function.update s.stored side (createConnection (s.stored side) code) }

/-- No stored blob is older than its row's last save or clear, and once the rotation
    has committed no row last saved before it opens under the old key. -/
structure Kept (s : RotateAndSave) : Prop where
  latest : ∀ side code, blobIn (s.stored side) code ≠ none →
    s.sourceAt (side, code) = s.savedAt (side, code)
  rotated : ∀ c ∈ s.committedAt, ∀ side code blob, blobIn (s.stored side) code = some blob →
    s.savedAt (side, code) ≤ c → ∀ plain, openSealed aead old code blob ≠ .ok plain

end

def holding (s : RotateAndSave) (side : Side) : List String :=
  (s.written side).map (·.1) ++ (selectSealed (s.stored side)).map (·.1)

def NothingSince (s : RotateAndSave) : Prop :=
  ∀ side, ∀ code ∈ holding s side, s.savedAt (side, code) ≤ s.readAt side

instance (s : RotateAndSave) : Decidable (NothingSince s) :=
  inferInstanceAs (Decidable (∀ side, ∀ code ∈ holding s side, _))

def CommitsOver (s : RotateAndSave) (a : Action) : Prop :=
  a = .commit ∧ s.stage = .updating .feed [] ∧ ¬ NothingSince s

instance (s : RotateAndSave) (a : Action) : Decidable (CommitsOver s a) :=
  inferInstanceAs (Decidable (_ ∧ _ ∧ _))

structure Wrote (t t' : Connections) (code : String) (blob : Option Bytes) : Prop where
  there : t'.find code ≠ none
  stored : blobIn t' code = blob
  others : ∀ c, c ≠ code → t'.find c = t.find c

theorem set_wrote {t : Connections} {code : String} (blob : Bytes)
    (there : (t.find code).isSome) : Wrote t (setCredentials t code blob) code (some blob) := by
  obtain ⟨row, found⟩ := Option.isSome_iff_exists.mp there
  refine ⟨?_, ?_, fun c other => ?_⟩
  · simp [setCredentials, find_update, found]
  · simp [blobIn, setCredentials, find_update, found]
  · simp [setCredentials, find_update, other]

theorem save_wrote {t t' : Connections} {code : String} {blob : Bytes} {side : Side}
    (saves : saveCredentials t code blob side = some t') : Wrote t t' code (some blob) := by
  cases side with
  | broker =>
    simp only [saveCredentials, saveBroker] at saves
    split at saves
    · rename_i there
      cases saves
      exact set_wrote blob there
    · cases saves
  | feed =>
    simp only [saveCredentials, saveFeed, Option.some.injEq] at saves
    subst saves
    split
    · rename_i there
      exact set_wrote blob there
    · rename_i missing
      have absent : t.find code = none := by simpa using missing
      refine ⟨?_, ?_, fun c other => ?_⟩
      · simp [find_insert, absent]
      · simp [blobIn, find_insert, absent]
      · simp [find_insert, other]

theorem clear_wrote {t t' : Connections} {code : String}
    (clears : clearCredentials t code = some t') : Wrote t t' code none := by
  unfold clearCredentials at clears
  split at clears
  · rename_i there
    obtain ⟨row, found⟩ := Option.isSome_iff_exists.mp there
    cases clears
    refine ⟨?_, ?_, fun c other => ?_⟩
    · simp [find_update, found]
    · simp [blobIn, find_update, found]
    · simp [find_update, other]
  · cases clears

theorem create_blob (t : Connections) (code c : String) :
    blobIn (createConnection t code) c = blobIn t c := by
  simp only [blobIn, createConnection, find_insert]
  split
  · rename_i missing
    simp [missing.2]
  · rfl

theorem create_there {t : Connections} {code c : String} (there : t.find c ≠ none) :
    (createConnection t code).find c ≠ none := by
  simp [createConnection, find_insert, there]

section
variable (aead : Aead) (old : MasterKey)

/-- A table that was read: the rows of its batch are those that held a credential,
    and whoever wrote one since did so after the read. -/
structure Selected (s : RotateAndSave) (side : Side) (batch : List (String × Bytes)) : Prop where
  read : s.readAt side ≤ s.clock
  distinct : (batch.map (·.1)).Nodup
  there : ∀ code ∈ batch.map (·.1), (s.stored side).find code ≠ none
  older : ∀ code ∈ batch.map (·.1), s.carried (side, code) ≤ s.readAt side
  current : ∀ code ∈ batch.map (·.1), s.savedAt (side, code) ≤ s.readAt side →
    s.carried (side, code) = s.savedAt (side, code)
  rewrapped : ∀ pair ∈ batch, ∀ plain, openSealed aead old pair.1 pair.2 ≠ .ok plain
  missed : ∀ code, blobIn (s.stored side) code ≠ none → code ∉ batch.map (·.1) →
    s.readAt side < s.savedAt (side, code)

def InStage (s : RotateAndSave) : Stage → Prop
  | .idle | .over => ∀ side, s.written side = []
  | .updating .broker pending =>
    Selected aead old s .broker (s.written .broker ++ pending) ∧ s.written .feed = []
  | .updating .feed pending =>
    Selected aead old s .broker (s.written .broker) ∧
      Selected aead old s .feed (s.written .feed ++ pending)

structure Inv (s : RotateAndSave) : Prop where
  kept : Kept aead old s
  saved : ∀ row, s.savedAt row ≤ s.clock
  source : ∀ row, s.sourceAt row ≤ s.clock
  committed : ∀ c ∈ s.committedAt, s.stage = .over ∧ c ≤ s.clock
  underOld : s.committedAt = none → ∀ side code blob, blobIn (s.stored side) code = some blob →
    0 < s.savedAt (side, code) → ∃ plain, openSealed aead old code blob = .ok plain
  inStage : InStage aead old s s.stage

end

variable {aead : Aead} {nonces : String → Nonce} {old new : MasterKey} {s t : RotateAndSave}

theorem mem_sealed {t : Connections} {code : String} :
    code ∈ (selectSealed t).map (·.1) ↔ blobIn t code ≠ none := by
  rw [Option.ne_none_iff_exists', List.mem_map]
  constructor
  · rintro ⟨⟨_, blob⟩, member, rfl⟩
    exact ⟨blob, mem_select.mp member⟩
  · rintro ⟨blob, stored⟩
    exact ⟨(code, blob), mem_select.mpr stored, rfl⟩

theorem mem_holding {side : Side} {code : String} :
    code ∈ holding s side ↔
      code ∈ (s.written side).map (·.1) ∨ blobIn (s.stored side) code ≠ none := by
  rw [holding, List.mem_append, mem_sealed]

theorem store_blob {side : Side} {code : String} {t' : Connections} {blob : Option Bytes}
    (wrote : Wrote (s.stored side) t' code blob) (side' : Side) (c : String) :
    blobIn ((store s side code t').stored side') c =
      if (side', c) = (side, code) then blob else blobIn (s.stored side') c := by
  show blobIn (Function.update s.stored side t' side') c = _
  by_cases same : side' = side
  · subst same
    rw [Function.update_self]
    by_cases own : c = code
    · subst own
      simp [wrote.stored]
    · simp [own, blobIn, wrote.others c own]
  · simp [same]

theorem store_there {side : Side} {code : String} {t' : Connections} {blob : Option Bytes}
    (wrote : Wrote (s.stored side) t' code blob) {side' : Side} {c : String}
    (there : (s.stored side').find c ≠ none) :
    ((store s side code t').stored side').find c ≠ none := by
  show (Function.update s.stored side t' side').find c ≠ none
  by_cases same : side' = side
  · subst same
    rw [Function.update_self]
    by_cases own : c = code
    · subst own
      exact wrote.there
    · rw [wrote.others c own]
      exact there
  · simpa [same] using there

theorem store_saved {side : Side} {code : String} {t' : Connections} (row : RowId) :
    (store s side code t').savedAt row =
      if row = (side, code) then s.clock + 1 else s.savedAt row := by
  simp [store, Function.update_apply]

theorem store_source {side : Side} {code : String} {t' : Connections} (row : RowId) :
    (store s side code t').sourceAt row =
      if row = (side, code) then s.clock + 1 else s.sourceAt row := by
  simp [store, Function.update_apply]

/-- A table that was read stays read: a row the server writes is later than the read. -/
theorem selected_store {side side' : Side} {code : String} {t' : Connections}
    {blob : Option Bytes} {batch : List (String × Bytes)}
    (wrote : Wrote (s.stored side) t' code blob) (selected : Selected aead old s side' batch) :
    Selected aead old (store s side code t') side' batch := by
  refine ⟨Nat.le_succ_of_le selected.read, selected.distinct,
    fun c member => store_there wrote (selected.there c member), selected.older, ?_,
    selected.rewrapped, ?_⟩
  · intro c member early
    rw [store_saved] at early ⊢
    have read := selected.read
    split at early
    · exact absurd (Nat.le_trans early read) (Nat.not_succ_le_self _)
    · rename_i other
      rw [if_neg other]
      exact selected.current c member early
  · intro c holds outside
    rw [store_blob wrote] at holds
    rw [store_saved]
    split
    · exact Nat.lt_succ_of_le selected.read
    · rename_i other
      rw [if_neg other] at holds
      exact selected.missed c holds outside

theorem in_stage_mono {stage : Stage} (written : t.written = s.written)
    (keeps : ∀ side batch, Selected aead old s side batch → Selected aead old t side batch)
    (inStage : InStage aead old s stage) : InStage aead old t stage := by
  cases stage with
  | updating side pending =>
    cases side with
    | broker =>
      simp only [InStage, written] at inStage ⊢
      exact ⟨keeps _ _ inStage.1, inStage.2⟩
    | feed =>
      simp only [InStage, written] at inStage ⊢
      exact ⟨keeps _ _ inStage.1, keeps _ _ inStage.2⟩
  | _ => simpa [InStage, written] using inStage

theorem store_keeps {side : Side} {code : String} {t' : Connections} {blob : Option Bytes}
    (inv : Inv aead old s) (wrote : Wrote (s.stored side) t' code blob)
    (underOld : ∀ b ∈ blob, ∃ plain, openSealed aead old code b = .ok plain) :
    Inv aead old (store s side code t') := by
  refine ⟨⟨?_, ?_⟩, ?_, ?_, ?_, ?_,
    in_stage_mono (s := s) rfl (fun _ _ => selected_store wrote) inv.inStage⟩
  · intro side' c holds
    rw [store_blob wrote] at holds
    rw [store_saved, store_source]
    split
    · rfl
    · rename_i other
      rw [if_neg other] at holds
      exact inv.kept.latest side' c holds
  · intro at_ committed side' c b holds early
    rw [store_blob wrote] at holds
    rw [store_saved] at early
    have bound := (inv.committed at_ committed).2
    split at early
    · exact absurd (Nat.le_trans early bound) (Nat.not_succ_le_self _)
    · rename_i other
      rw [if_neg other] at holds
      exact inv.kept.rotated at_ committed side' c b holds early
  · intro row
    rw [store_saved]
    split
    · exact Nat.le_refl _
    · exact Nat.le_succ_of_le (inv.saved row)
  · intro row
    rw [store_source]
    split
    · exact Nat.le_refl _
    · exact Nat.le_succ_of_le (inv.source row)
  · intro c committed
    exact ⟨(inv.committed c committed).1, Nat.le_succ_of_le (inv.committed c committed).2⟩
  · intro running side' c b holds later
    rw [store_blob wrote] at holds
    split at holds
    · rename_i own
      cases own
      exact underOld b holds
    · rename_i other
      rw [store_saved, if_neg other] at later
      exact inv.underOld running side' c b holds later

theorem created_blob (side side' : Side) (code c : String) :
    blobIn (Function.update s.stored side (createConnection (s.stored side) code) side') c =
      blobIn (s.stored side') c := by
  by_cases same : side' = side
  · subst same
    rw [Function.update_self, create_blob]
  · simp [same]

theorem created_there (side side' : Side) (code : String) {c : String}
    (there : (s.stored side').find c ≠ none) :
    (Function.update s.stored side (createConnection (s.stored side) code) side').find c ≠
      none := by
  by_cases same : side' = side
  · subst same
    rw [Function.update_self]
    exact create_there there
  · simpa [same] using there

/-- A new connection holds no credential, so nothing the invariant tells of changes. -/
theorem create_keeps (inv : Inv aead old s) (side : Side) (code : String) :
    Inv aead old { s with
      stored := Function.update s.stored side (createConnection (s.stored side) code) } := by
  have selected : ∀ side' batch, Selected aead old s side' batch →
      Selected aead old { s with
        stored := Function.update s.stored side (createConnection (s.stored side) code) }
        side' batch := by
    intro side' batch read
    refine ⟨read.read, read.distinct, fun c member => created_there _ _ _ (read.there c member),
      read.older, read.current, read.rewrapped, fun c holds => ?_⟩
    rw [created_blob] at holds
    exact read.missed c holds
  refine ⟨⟨?_, ?_⟩, inv.saved, inv.source, inv.committed, ?_,
    in_stage_mono (s := s) rfl selected inv.inStage⟩
  · intro side' c holds
    rw [created_blob] at holds
    exact inv.kept.latest side' c holds
  · intro at_ committed side' c b holds
    rw [created_blob] at holds
    exact inv.kept.rotated at_ committed side' c b holds
  · intro running side' c b holds
    rw [created_blob] at holds
    exact inv.underOld running side' c b holds

theorem running (inv : Inv aead old s) (stage : s.stage ≠ .over) : s.committedAt = none := by
  cases committed : s.committedAt with
  | none => rfl
  | some c => exact absurd (inv.committed c committed).1 stage

theorem rollback_keeps (inv : Inv aead old s) (stage : s.stage ≠ .over) :
    Inv aead old (rollback s) := by
  refine ⟨⟨inv.kept.latest, inv.kept.rotated⟩, inv.saved, inv.source, ?_, inv.underOld,
    fun _ => rfl⟩
  intro c committed
  cases (running inv stage).symm.trans committed

theorem start_selected (lawful : aead.Lawful) (different : old ≠ new) (inv : Inv aead old s)
    {side : Side} {rewrapped : List (String × Bytes)}
    (batch : rewrapRows aead nonces old new (selectSealed (s.stored side)) = .ok rewrapped) :
    Selected aead old (startUpdates s side rewrapped) side rewrapped := by
  have codes := rewrap_rows_codes batch
  have held : ∀ code, code ∈ rewrapped.map (·.1) ↔ blobIn (s.stored side) code ≠ none := by
    intro code
    rw [codes]
    exact mem_sealed
  refine ⟨?_, ?_, ?_, ?_, ?_, rewrap_rows_new lawful different batch, ?_⟩
  · simp [startUpdates]
  · rw [codes]
    exact select_codes _
  · intro code member missing
    refine (held code).mp member ?_
    show blobIn (s.stored side) code = none
    rw [blobIn, show (s.stored side).find code = none from missing]
    rfl
  · intro code _
    simpa [startUpdates] using inv.source (side, code)
  · intro code member _
    simpa [startUpdates] using inv.kept.latest side code ((held code).mp member)
  · intro code holds outside
    exact absurd ((held code).mpr holds) outside

theorem start_other {side side' : Side} (other : side' ≠ side)
    {rewrapped batch : List (String × Bytes)} (read : Selected aead old s side' batch) :
    Selected aead old (startUpdates s side rewrapped) side' batch := by
  have same : (startUpdates s side rewrapped).readAt side' = s.readAt side' :=
    Function.update_of_ne other _ _
  have carried : ∀ code, (startUpdates s side rewrapped).carried (side', code) =
      s.carried (side', code) := fun code => if_neg other
  refine ⟨?_, read.distinct, read.there, ?_, ?_, read.rewrapped, ?_⟩
  · rw [same]
    exact read.read
  · intro code member
    rw [same, carried]
    exact read.older code member
  · intro code member
    rw [same, carried]
    exact read.current code member
  · intro code holds outside
    rw [same]
    exact read.missed code holds outside

theorem start_keeps (inv : Inv aead old s) (stage : s.stage ≠ .over) {side : Side}
    {rewrapped : List (String × Bytes)}
    (inStage : InStage aead old (startUpdates s side rewrapped) (.updating side rewrapped)) :
    Inv aead old (startUpdates s side rewrapped) := by
  refine ⟨⟨inv.kept.latest, inv.kept.rotated⟩, inv.saved, inv.source, ?_, inv.underOld, inStage⟩
  intro c committed
  cases (running inv stage).symm.trans committed

theorem select_keeps (lawful : aead.Lawful) (different : old ≠ new) (inv : Inv aead old s)
    (next : step aead nonces old new s .select = some t) : Inv aead old t := by
  have before := inv.inStage
  simp only [step] at next
  split at next
  · rename_i stage
    rw [stage] at before
    have open_ : s.stage ≠ .over := by simp [stage]
    cases next
    unfold selectTable
    split
    · exact rollback_keeps inv open_
    · rename_i rewrapped batch
      refine start_keeps inv open_ ⟨?_, before .feed⟩
      show Selected _ _ _ _ (s.written .broker ++ rewrapped)
      rw [before .broker]
      exact start_selected lawful different inv batch
  · rename_i stage
    rw [stage] at before
    have open_ : s.stage ≠ .over := by simp [stage]
    cases next
    unfold selectTable
    split
    · exact rollback_keeps inv open_
    · rename_i rewrapped batch
      obtain ⟨brokers, feeds⟩ := before
      rw [List.append_nil] at brokers
      refine start_keeps inv open_ ⟨start_other (by decide) brokers, ?_⟩
      show Selected _ _ _ _ (s.written .feed ++ rewrapped)
      rw [feeds]
      exact start_selected lawful different inv batch
  · cases next

theorem update_keeps (inv : Inv aead old s)
    (next : step aead nonces old new s .update = some t) : Inv aead old t := by
  have before := inv.inStage
  simp only [step] at next
  split at next
  · rename_i side pair pending stage
    rw [stage] at before
    have open_ : s.stage ≠ .over := by simp [stage]
    cases next
    refine ⟨⟨inv.kept.latest, inv.kept.rotated⟩, inv.saved, inv.source, ?_, inv.underOld, ?_⟩
    · intro c committed
      cases (running inv open_).symm.trans committed
    · have keeps : ∀ side' batch, Selected aead old s side' batch → Selected aead old { s with
          stage := .updating side pending
          written := Function.update s.written side (s.written side ++ [pair]) } side' batch :=
        fun _ _ read => ⟨read.read, read.distinct, read.there, read.older, read.current,
          read.rewrapped, read.missed⟩
      cases side with
      | broker =>
        refine ⟨?_, before.2⟩
        show Selected _ _ _ _ ((s.written .broker ++ [pair]) ++ pending)
        rw [List.append_assoc]
        exact keeps _ _ before.1
      | feed =>
        refine ⟨keeps _ _ before.1, ?_⟩
        show Selected _ _ _ _ ((s.written .feed ++ [pair]) ++ pending)
        rw [List.append_assoc]
        exact keeps _ _ before.2
  · cases next

/-- At the commit both tables were read, and all that was read is written back. -/
theorem all_written (inv : Inv aead old s) (stage : s.stage = .updating .feed []) (side : Side) :
    Selected aead old s side (s.written side) := by
  have before := inv.inStage
  rw [stage] at before
  obtain ⟨brokers, feeds⟩ := before
  rw [List.append_nil] at feeds
  cases side with
  | broker => exact brokers
  | feed => exact feeds

theorem committed_written {side : Side} {pair : String × Bytes}
    (read : Selected aead old s side (s.written side)) (member : pair ∈ s.written side) :
    blobIn ((commitTx s).stored side) pair.1 = some pair.2 :=
  set_all_blob read.distinct member (read.there pair.1 (List.mem_map.mpr ⟨pair, member, rfl⟩))

theorem committed_other {side : Side} {code : String}
    (outside : code ∉ (s.written side).map (·.1)) :
    blobIn ((commitTx s).stored side) code = blobIn (s.stored side) code := by
  have same : (setAll (s.stored side) (s.written side)).find code = (s.stored side).find code :=
    set_all_other fun pair member own => outside (List.mem_map.mpr ⟨pair, member, own⟩)
  show ((setAll (s.stored side) (s.written side)).find code).bind _ = _
  rw [same]
  rfl

theorem committed_source (side : Side) (code : String) :
    (commitTx s).sourceAt (side, code) =
      if code ∈ (s.written side).map (·.1) then s.carried (side, code)
      else s.sourceAt (side, code) := rfl

theorem commit_keeps (inv : Inv aead old s) (stage : s.stage = .updating .feed [])
    (nothing : NothingSince s) : Inv aead old (commitTx s) := by
  have selected := all_written inv stage
  refine ⟨⟨?_, ?_⟩, inv.saved, ?_, ?_, (fun running => nomatch running),
    fun _ => rfl⟩
  · intro side code holds
    rw [committed_source]
    split
    · rename_i member
      exact (selected side).current code member
        (nothing side code (mem_holding.mpr (Or.inl member)))
    · rename_i outside
      rw [committed_other outside] at holds
      exact inv.kept.latest side code holds
  · intro c _ side code blob holds _
    by_cases member : code ∈ (s.written side).map (·.1)
    · obtain ⟨pair, among, rfl⟩ := List.mem_map.mp member
      rw [committed_written (selected side) among] at holds
      cases holds
      exact (selected side).rewrapped pair among
    · rw [committed_other member] at holds
      have there : blobIn (s.stored side) code ≠ none := by simp [holds]
      have late := (selected side).missed code there member
      exact absurd late (Nat.not_lt.mpr (nothing side code (mem_holding.mpr (Or.inr there))))
  · rintro ⟨side, code⟩
    rw [committed_source]
    split
    · rename_i member
      exact Nat.le_trans ((selected side).older code member) (selected side).read
    · exact inv.source (side, code)
  · intro c committed
    cases committed
    exact ⟨rfl, Nat.le_refl _⟩

theorem commit_breaks (inv : Inv aead old s) (stage : s.stage = .updating .feed [])
    (something : ¬ NothingSince s) : ¬ Kept aead old (commitTx s) := by
  have selected := all_written inv stage
  simp only [NothingSince, not_forall, Nat.not_le] at something
  obtain ⟨side, code, held, late⟩ := something
  intro kept
  by_cases member : code ∈ (s.written side).map (·.1)
  · obtain ⟨pair, among, rfl⟩ := List.mem_map.mp member
    have latest := kept.latest side pair.1 (by simp [committed_written (selected side) among])
    rw [committed_source, if_pos member] at latest
    have older := (selected side).older pair.1 member
    rw [latest] at older
    exact absurd late (Nat.not_lt.mpr older)
  · have there := (mem_holding.mp held).resolve_left member
    obtain ⟨blob, holds⟩ := Option.ne_none_iff_exists'.mp there
    have running := running inv (by simp [stage])
    obtain ⟨plain, opens⟩ := inv.underOld running side code blob holds
      (Nat.lt_of_le_of_lt (Nat.zero_le _) late)
    refine kept.rotated s.clock rfl side code blob ?_ (inv.saved (side, code)) plain opens
    rw [committed_other member]
    exact holds

theorem step_keeps (lawful : aead.Lawful) (different : old ≠ new) (s : RotateAndSave) (a : Action)
    (t : RotateAndSave) (inv : Inv aead old s) (ok : ¬ CommitsOver s a)
    (next : step aead nonces old new s a = some t) : Inv aead old t := by
  cases a with
  | select => exact select_keeps lawful different inv next
  | update => exact update_keeps inv next
  | commit =>
    simp only [step] at next
    split at next
    · rename_i stage
      cases next
      exact commit_keeps inv stage (by_contra fun something => ok ⟨rfl, stage, something⟩)
    · cases next
  | abort =>
    simp only [step] at next
    split at next
    · cases next
    · rename_i stage
      cases next
      exact rollback_keeps inv stage
  | save side code nonce plain =>
    simp only [step] at next
    split at next
    · cases next
    · obtain ⟨t', saves, rfl⟩ := Option.map_eq_some_iff.mp next
      refine store_keeps inv (save_wrote saves) fun blob made => ?_
      cases made
      exact ⟨plain, open_seal lawful _ _ _ _⟩
  | clear side code =>
    simp only [step] at next
    split at next
    · cases next
    · obtain ⟨t', clears, rfl⟩ := Option.map_eq_some_iff.mp next
      exact store_keeps inv (clear_wrote clears) fun blob made => nomatch made
  | create side code =>
    cases next
    exact create_keeps inv side code

theorem start_inv (stored : Side → Connections) : Inv aead old (.start stored) := by
  refine ⟨⟨fun _ _ _ => rfl, (fun c committed => nomatch committed)⟩,
    fun _ => Nat.le_refl _, fun _ => Nat.le_refl _, (fun c committed => nomatch committed), ?_,
    fun _ => rfl⟩
  intro _ side code blob _ later
  exact absurd later (Nat.lt_irrefl 0)

/-- No save or clear is undone, and none is left under the old key, exactly when the
    rotation does not commit over one that came since its table was read. -/
theorem rotation_undoes_nothing_iff (lawful : aead.Lawful) (different : old ≠ new)
    (nonces : String → Nonce) (stored : Side → Connections) (as : List Action) :
    Throughout (step aead nonces old new) (Kept aead old) (.start stored) as ↔
      Along (step aead nonces old new) (fun s a => ¬ CommitsOver s a) (.start stored) as := by
  refine throughout_iff_along (step_keeps lawful different) (fun s inv => inv.kept) ?_
    (start_inv stored)
  intro s a inv over_
  obtain ⟨rfl, stage, something⟩ := not_not.mp over_
  exact ⟨commitTx s, by simp [step, stage], commit_breaks inv stage something⟩

def sealedOld (code : String) (plain : Bytes) : Bytes :=
  sealWith openCipher (masterKey 0) (zeroNonce code) code plain

def stocked : Side → Connections
  | .broker => ⟨[⟨"ib", some (sealedOld "ib" [1])⟩], by simp⟩
  | .feed => ⟨[⟨"opra", none⟩], by simp⟩

abbrev demo := step openCipher zeroNonce (masterKey 0) (masterKey 1)

def saveBetween : List Action :=
  [.select, .save .broker "ib" (zeroNonce "") [2], .update, .select, .commit]

def saveBehind : List Action :=
  [.select, .update, .select, .save .feed "opra" (zeroNonce "") [3], .commit]

/-- A save between the read and the write-back is overwritten by the older blob, and
    one the read did not see stays under the old key. -/
theorem rotation_undoes_a_save :
    openCipher.Lawful ∧ masterKey 0 ≠ masterKey 1 ∧
      ¬ Throughout demo (Kept openCipher (masterKey 0)) (.start stocked) saveBetween ∧
      ¬ Throughout demo (Kept openCipher (masterKey 0)) (.start stocked) saveBehind := by
  refine ⟨open_cipher_lawful, by decide, ?_, ?_⟩
  · intro kept
    have ends : (run demo (.start stocked) saveBetween).map (fun s =>
        (s.sourceAt (.broker, "ib"), s.savedAt (.broker, "ib"),
          (blobIn (s.stored .broker) "ib").isSome)) = some (0, 1, true) := by decide +kernel
    obtain ⟨s, reached, parts⟩ := Option.map_eq_some_iff.mp ends
    simp only [Prod.mk.injEq] at parts
    obtain ⟨source, saved, there⟩ := parts
    have latest := (throughout_end kept s reached).latest .broker "ib"
      (Option.ne_none_iff_isSome.mpr there)
    rw [source, saved] at latest
    cases latest
  · intro kept
    have ends : (run demo (.start stocked) saveBehind).map (fun s =>
        (s.committedAt, s.savedAt (.feed, "opra"), blobIn (s.stored .feed) "opra")) =
        some (some 1, 1, some (sealedOld "opra" [3])) := by decide +kernel
    obtain ⟨s, reached, parts⟩ := Option.map_eq_some_iff.mp ends
    simp only [Prod.mk.injEq] at parts
    obtain ⟨committed, saved, holds⟩ := parts
    exact (throughout_end kept s reached).rotated 1 committed .feed "opra" _ holds
      (Nat.le_of_eq saved) [3] (open_seal open_cipher_lawful _ _ _ _)

/-- Saves before a table's read and after the rotation's commit. -/
def savesAround : List Action :=
  [.select, .create .broker "alpaca", .update, .save .feed "opra" (zeroNonce "") [3], .select,
    .update, .clear .broker "alpaca", .commit, .save .broker "ib" (zeroNonce "") [2]]

theorem saves_around_kept :
    Throughout demo (Kept openCipher (masterKey 0)) (.start stocked) savesAround :=
  (rotation_undoes_nothing_iff open_cipher_lawful (by decide) zeroNonce stocked savesAround).mpr
    (by decide +kernel)

end OmsRotateAndSave
