import OpenOms.Systems.Killing

/-!
What a Kill leaves behind: every order it could still find is closed, asked to
cancel or named, as long as none of its local cancels comes too late for the
order's submit to follow it up.
-/
namespace OmsKill
open OmsOrders OmsAggregate OmsOrderStore OmsOrderEntry OmsOrderEngine OmsRisk OmsRiskEngine
open OmsGuard OmsAdmission OmsLifeSteps OmsOrphans OmsKilledOrder OmsOrderWrites Runs
open OmsOrderLife hiding Action step submitStep
open OmsKilling Lists

def Named (report : ControlReport) (submit : Submit) : Prop :=
  ∃ failure ∈ report.cancelFailures, failure.orderId = submit.cmd.orderId

instance (report : ControlReport) (submit : Submit) : Decidable (Named report submit) := by
  unfold Named
  infer_instance

/-- Closed and not worked at the venue, asked to cancel there, or named as a failure. -/
def Covered (report : ControlReport) (submit : Submit) : Prop :=
  (∃ row ∈ submit.life.db.row, row.status.isTerminal = true ∧ worksAt submit.life.venue = false) ∨
    submit.life.venue.cancelSent = true ∨ Named report submit

instance (report : ControlReport) (submit : Submit) : Decidable (Covered report submit) := by
  unfold Covered
  infer_instance

/-- Once the Kill and the submits have returned, every admitted order is covered;
    and a submit that locked the row with HALTED committed stores no order but a
    rejected one. -/
def Complete (s : Killing) : Prop :=
  (s.stage = .returned → (∀ submit ∈ s.submits, submit.Returned) →
      ∀ submit ∈ s.submits, submit.life.db.row ≠ none → Covered s.report submit) ∧
    ∀ submit ∈ s.submits, submit.afterHalt = true → ∀ row ∈ submit.row, row.status = .rejected

instance (s : Killing) : Decidable (Complete s) := by
  unfold Complete
  infer_instance

structure Kept (halted : Prop) (submit : Submit) : Prop where
  tracked : Tracked submit.life
  entered : submit.tx1 ≠ .admitted → submit.life.db.row = none
  holding : ∀ locked, submit.tx1 = .holding locked → halted → locked.state = .halted
  late : submit.afterHalt = true → halted ∧ submit.life.db.row = none
  refusal : ∀ row, submit.refusal.row = some row → row.status = .rejected

def Dealt (report : ControlReport) (submit : Submit) : Prop :=
  (∃ row, submit.life.db.row = some row ∧ row.status.isTerminal = true) ∨
    submit.life.venue.cancelSent = true ∨ Named report submit

def Todo (orders : List Nat) (report : ControlReport) (submits : List Submit) : Prop :=
  ∀ i submit, submits[i]? = some submit → submit.life.db.row ≠ none →
    i ∈ orders ∨ Dealt report submit

structure Inv (s : Killing) : Prop where
  submits : ∀ submit ∈ s.submits, Kept (s.stage ≠ .idle) submit
  halted : s.stage ≠ .idle → s.strategy.state = .halted
  todo : ∀ orders, s.stage.left = some orders → Todo orders s.report s.submits

theorem start_inv (strategy : Strategy) : Inv (.start strategy) := by
  refine ⟨?_, fun wrong => absurd rfl wrong, ?_⟩
  · intro _ missing
    cases missing
  · intro orders wrong
    cases wrong

theorem note_named {report : ControlReport} {submit : Submit} (named : Named report submit)
    (orderId : String) (failure : Option String) :
    Named (report.note orderId failure) submit := by
  obtain ⟨found, member, same⟩ := named
  cases failure with
  | none => exact ⟨found, member, same⟩
  | some message => exact ⟨found, List.mem_append_left _ member, same⟩

theorem note_names (report : ControlReport) (submit : Submit) (message : String) :
    Named (report.note submit.cmd.orderId (some message)) submit :=
  ⟨⟨submit.cmd.orderId, message⟩, List.mem_append_right _ (List.mem_singleton.mpr rfl), rfl⟩

/-- A write of another kind than TX1's puts no row where there is none, and no
    write reopens an order. -/
theorem write_keeps_row {db db' : OrderDb} {kind : WriteKind} (write : Write db kind db') :
    (kind ≠ .submit → db.row = none → db'.row = none) ∧
      ((∃ row, db.row = some row ∧ row.status.isTerminal = true) →
        ∃ row, db'.row = some row ∧ row.status.isTerminal = true) := by
  cases write with
  | submitted cmd event code createdAt absent =>
    refine ⟨fun other => absurd rfl other, ?_⟩
    rintro ⟨row, there, _⟩
    cases absent.symm.trans there
  | reported row report event stored isOpen =>
    refine ⟨fun _ absent => (by cases absent.symm.trans stored), ?_⟩
    rintro ⟨found, there, terminal⟩
    cases stored.symm.trans there
    rw [isOpen] at terminal
    cases terminal
  | routed row venue externalOrderId event stored submitted =>
    refine ⟨fun _ absent => (by cases absent.symm.trans stored), ?_⟩
    rintro ⟨found, there, terminal⟩
    cases stored.symm.trans there
    rw [submitted] at terminal
    cases terminal
  | canceled row reason event stored isOpen =>
    refine ⟨fun _ absent => (by cases absent.symm.trans stored), ?_⟩
    rintro ⟨found, there, terminal⟩
    cases stored.symm.trans there
    rw [isOpen] at terminal
    cases terminal
  | recorded externalOrderId =>
    refine ⟨fun _ absent => by simp [recordExternalId, absent], ?_⟩
    rintro ⟨row, there, terminal⟩
    refine ⟨{ row with externalOrderId := row.externalOrderId.or (some externalOrderId) }, ?_,
      terminal⟩
    simp [recordExternalId, there]

theorem makes_other {writer : Writer} {snapshot : OrderRow} {db : OrderDb} {kind : WriteKind}
    (makes : Makes writer snapshot db kind) : kind ≠ .submit := by
  rintro rfl
  cases writer with
  | report report stamp => cases makes.1
  | route venue name stamp => rcases makes with ⟨wrong, _⟩ | wrong <;> cases wrong
  | cancel reason stamp => cases makes.1

theorem life_row {sender : Sender} {life life' : Life} {a : OmsOrderLife.Action}
    (wired : Wired life) (next : OmsOrderLife.step sender life a = some life') :
    ((∀ cmd metadata code, a ≠ .submit (.store cmd metadata code)) → life.db.row = none →
      life'.db.row = none) ∧
    ((∃ row, life.db.row = some row ∧ row.status.isTerminal = true) →
      ∃ row, life'.db.row = some row ∧ row.status.isTerminal = true) := by
  rcases step_writes wired next with
    same | ⟨cmd, metadata, code, rfl, _, write⟩ | ⟨w, snapshot, kind, _, makes, write⟩
  · rw [same]
    exact ⟨fun _ absent => absent, id⟩
  · exact ⟨fun other => absurd rfl (other cmd metadata code), (write_keeps_row write).2⟩
  · exact ⟨fun _ => (write_keeps_row write).1 (makes_other makes), (write_keeps_row write).2⟩

theorem own_takes_part {a : OmsOrderLife.Action} (own : ownStep a = true) : takesPart a = true := by
  unfold ownStep at own
  split at own
  · cases own
  · cases own
  · exact own

theorem kept_life {halted : Prop} {submit : Submit} (kept : Kept halted submit)
    {a : OmsOrderLife.Action} {life : Life}
    (other : ∀ cmd metadata code, a ≠ .submit (.store cmd metadata code))
    (part : takesPart a = true) (ok : cancelsBehind submit.life a = false)
    (within : overbooks submit.life a = false)
    (next : OmsOrderLife.step submit.sender submit.life a = some life) :
    Kept halted { submit with life } where
  tracked := step_tracked kept.tracked part ok within next
  entered apart := (life_row kept.tracked.wired next).1 other (kept.entered apart)
  holding := kept.holding
  late noted := ⟨(kept.late noted).1,
    (life_row kept.tracked.wired next).1 other (kept.late noted).2⟩
  refusal := kept.refusal

theorem dealt_life {submit : Submit} {report : ControlReport} (wired : Wired submit.life)
    {a : OmsOrderLife.Action} {life : Life}
    (next : OmsOrderLife.step submit.sender submit.life a = some life)
    (dealt : Dealt report submit) : Dealt report { submit with life } := by
  rcases dealt with terminal | sent | named
  · exact .inl ((life_row wired next).2 terminal)
  · exact .inr (.inl ((step_venue next).2 sent))
  · exact .inr (.inr named)

theorem dealt_note {submit : Submit} {report : ControlReport} (dealt : Dealt report submit)
    (orderId : String) (failure : Option String) : Dealt (report.note orderId failure) submit :=
  dealt.imp_right (.imp_right fun named => note_named named orderId failure)

theorem todo_set {orders left : List Nat} {report now : ControlReport} {submits : List Submit}
    {i : Nat} {submit : Submit} (todo : Todo orders report submits)
    (others : ∀ j, j ≠ i → j ∈ orders → j ∈ left)
    (grows : ∀ other, Dealt report other → Dealt now other)
    (new : i < submits.length → submit.life.db.row ≠ none → i ∈ left ∨ Dealt now submit) :
    Todo left now (submits.set i submit) := by
  intro j other there stored
  have bound := (List.getElem?_eq_some_iff.mp there).1
  rcases at_set there with ⟨rfl, rfl⟩ | ⟨apart, old⟩
  · exact new (by simpa using bound) stored
  · exact (todo j other old stored).imp (others j apart) (grows other)

theorem kept_iff {halted now : Prop} {submit : Submit} (kept : Kept halted submit)
    (same : halted ↔ now) : Kept now submit where
  tracked := kept.tracked
  entered := kept.entered
  holding locked holds stands := kept.holding locked holds (same.mpr stands)
  late noted := ⟨same.mp (kept.late noted).1, (kept.late noted).2⟩
  refusal := kept.refusal

theorem set_keeps {s : Killing} (inv : Inv s) {i : Nat} {submit : Submit}
    (kept : Kept (s.stage ≠ .idle) submit)
    (dealt : ∀ orders, s.stage.left = some orders → submit.life.db.row ≠ none →
      i ∈ orders ∨ Dealt s.report submit) : Inv (setSubmit s i submit) where
  submits := forall_mem_set inv.submits kept
  halted := inv.halted
  todo orders left := todo_set (inv.todo orders left) (fun _ _ member => member) (fun _ => id)
    (fun _ => dealt orders left)

/-- Nothing is stored yet, and the first transaction goes on without the row's lock. -/
theorem tx1_keeps {s : Killing} (inv : Inv s) {i : Nat} {submit : Submit}
    (there : s.submits[i]? = some submit) (absent : submit.life.db.row = none) {tx1 : Tx1}
    (free : ∀ locked, tx1 ≠ .holding locked) : Inv (setSubmit s i { submit with tx1 }) := by
  have kept := inv.submits submit (List.mem_of_getElem? there)
  refine set_keeps inv ⟨kept.tracked, fun _ => absent, ?_, kept.late, kept.refusal⟩
    fun orders left => inv.todo orders left i submit there
  exact fun locked holds => absurd holds (free locked)

theorem admit_keeps {s : Killing} (inv : Inv s) {i : Nat} {submit : Submit} {life : Life}
    {store : SubmitAction} (kept : Kept (s.stage ≠ .idle) submit) (early : s.stage = .idle)
    (part : takesPart (.submit store) = true)
    (stored : OmsOrderLife.step submit.sender submit.life (.submit store) = some life) :
    Inv (setSubmit s i { submit with tx1 := .admitted, life }) := by
  refine set_keeps inv ⟨step_tracked kept.tracked part rfl rfl stored, ?_, ?_, ?_, kept.refusal⟩ ?_
  · intro apart
    exact absurd rfl apart
  · intro other holds
    cases holds
  · intro noted
    exact absurd early (kept.late noted).1
  · intro orders left
    rw [early] at left
    cases left

theorem order_keeps {s : Killing} (inv : Inv s) {i : Nat} {submit : Submit}
    (there : s.submits[i]? = some submit) {own : OmsOrderLife.Action} {life : Life}
    (takes : ownStep own = true) (within : overbooks submit.life own = false)
    (moved : OmsOrderLife.step submit.sender submit.life own = some life) :
    Inv (setSubmit s i { submit with life }) := by
  have kept := inv.submits submit (List.mem_of_getElem? there)
  have other : ∀ cmd metadata code, own ≠ .submit (.store cmd metadata code) := by
    rintro cmd metadata code rfl
    cases takes
  have quiet : cancelsBehind submit.life own = false := by
    cases own with
    | cancel a => cases takes
    | _ => rfl
  refine set_keeps inv (kept_life kept other (own_takes_part takes) quiet within moved) ?_
  intro orders left stored
  have wasStored : submit.life.db.row ≠ none := fun absent =>
    stored ((life_row kept.tracked.wired moved).1 other absent)
  exact (inv.todo orders left i submit there wasStored).imp_right
    (dealt_life kept.tracked.wired moved)

theorem submit_step_keeps {s t : Killing} {i : Nat} {submit : Submit} {a : Action} (inv : Inv s)
    (there : s.submits[i]? = some submit)
    (within : ∀ j own, a = .order j own → overbooks submit.life own = false)
    (next : submitStep s i submit a = some t) : Inv t := by
  have kept := inv.submits submit (List.mem_of_getElem? there)
  have dealt : ∀ orders, s.stage.left = some orders → submit.life.db.row ≠ none →
      i ∈ orders ∨ Dealt s.report submit := fun orders left => inv.todo orders left i submit there
  cases a with
  | refuse j rejection =>
    simp only [submitStep] at next
    split at next
    · rename_i waiting
      cases next
      refine tx1_keeps inv there (kept.entered (by simp [waiting])) ?_
      intro locked
      cases rejection <;> simp
    · cases next
  | lock j =>
    simp only [submitStep] at next
    split at next
    · rename_i free
      cases next
      have absent := kept.entered (by simp [free.1])
      refine set_keeps inv ⟨kept.tracked, fun _ => absent, ?_, ?_, kept.refusal⟩ dealt
      · intro locked holds stands
        cases holds
        exact inv.halted stands
      · intro noted
        exact ⟨by simpa using noted, absent⟩
    · cases next
  | check j reads metadata code =>
    simp only [submitStep] at next
    split at next
    · rename_i locked holding
      have absent := kept.entered (by simp [holding])
      split at next
      · cases next
        exact tx1_keeps inv there absent (by simp)
      · rename_i passes
        have early : s.stage = .idle := by
          by_contra stands
          exact admission_not_halted passes (kept.holding locked holding stands)
        split at next
        · cases next
          exact tx1_keeps inv there absent (by simp)
        · obtain ⟨life, stored, rfl⟩ := Option.map_eq_some_iff.mp next
          exact admit_keeps inv kept early rfl stored
    · cases next
  | record j submitStamp rejectStamp code =>
    simp only [submitStep] at next
    split at next
    · rename_i rejection refused
      have absent := kept.entered (by simp [refused])
      split at next
      · rename_i refusal recorded
        cases next
        refine set_keeps inv ⟨kept.tracked, fun _ => absent, ?_, kept.late, ?_⟩ dealt
        · intro locked holds
          cases holds
        · intro row there'
          obtain ⟨found, same, rejected⟩ := record_rejection_rejected recorded
          cases same.symm.trans there'
          exact rejected
      · cases next
        exact tx1_keeps inv there absent (by simp)
    · cases next
  | order j own =>
    simp only [submitStep] at next
    split at next
    · rename_i takes
      obtain ⟨life, moved, rfl⟩ := Option.map_eq_some_iff.mp next
      exact order_keeps inv there takes (within j own rfl) moved
    · cases next
  | _ => cases next

theorem answer_keeps {s t : Killing} (inv : Inv s) {i : Nat} {orders : List Nat}
    (asking : s.stage = .asking i orders) {submit : Submit}
    (there : s.submits[i]? = some submit) {a : CancelAction} {failure : Option String}
    (ok : cancelsBehind submit.life (.cancel a) = false)
    (dealt : ∀ life, OmsOrderLife.step submit.sender submit.life (.cancel a) = some life →
      Dealt (s.report.note submit.cmd.orderId failure) { submit with life })
    (next : answer s i submit orders a failure = some t) : Inv t := by
  have kept := inv.submits submit (List.mem_of_getElem? there)
  obtain ⟨life, moved, rfl⟩ := Option.map_eq_some_iff.mp next
  have halted : s.stage ≠ .idle := by simp [asking]
  have new := kept_life kept (by simp) rfl ok rfl moved
  refine ⟨?_, fun _ => inv.halted halted, ?_⟩
  · intro other member
    exact kept_iff (forall_mem_set inv.submits new other member) (by simp [halted])
  · intro left still
    cases still
    refine todo_set (inv.todo (i :: orders) (by rw [asking]; rfl)) ?_ ?_ ?_
    · intro j apart member
      exact (List.mem_cons.mp member).resolve_left apart
    · exact fun other was => dealt_note was _ _
    · exact fun _ _ => .inr (dealt life moved)

theorem ask_keeps {s : Killing} (inv : Inv s) {i : Nat} {orders : List Nat}
    (cancelling : s.stage = .cancelling (i :: orders)) {submit : Submit}
    (there : s.submits[i]? = some submit) {life : Life}
    (moved : OmsOrderLife.step submit.sender submit.life (.cancel .read) = some life) :
    Inv { setSubmit s i { submit with life } with stage := .asking i orders } := by
  have kept := inv.submits submit (List.mem_of_getElem? there)
  have new := kept_life kept (by simp) rfl rfl rfl moved
  refine ⟨fun other member => kept_iff (forall_mem_set inv.submits new other member)
    (by simp [cancelling]), fun _ => inv.halted (by simp [cancelling]), ?_⟩
  intro left still
  cases still
  refine todo_set (inv.todo (i :: orders) (by rw [cancelling]; rfl))
    (fun _ _ member => member) (fun _ => id) ?_
  exact fun _ _ => .inl List.mem_cons_self

theorem note_keeps {s : Killing} (inv : Inv s) {i : Nat} {orders : List Nat}
    (cancelling : s.stage = .cancelling (i :: orders)) {submit : Submit}
    (there : s.submits[i]? = some submit) (message : String) :
    Inv { s with
      stage := .cancelling orders
      report := s.report.note submit.cmd.orderId (some message) } := by
  have halted : s.stage ≠ .idle := by simp [cancelling]
  refine ⟨fun other member => kept_iff (inv.submits other member) (by simp [halted]),
    fun _ => inv.halted halted, ?_⟩
  intro left still
  cases still
  intro j other found stored
  rcases inv.todo (i :: orders) (by rw [cancelling]; rfl) j other found stored with member | dealt
  · rcases List.mem_cons.mp member with rfl | later
    · cases there.symm.trans found
      exact .inr (.inr (.inr (note_names _ _ message)))
    · exact .inl later
  · exact .inr (dealt_note dealt _ _)

theorem not_holding {s : Killing} (free : rowLocked s = false) {submit : Submit}
    (member : submit ∈ s.submits) {locked : Strategy} : submit.tx1 ≠ .holding locked := by
  intro holding
  simp only [rowLocked, List.any_eq_false] at free
  exact free submit member (by simp [Submit.holds, holding])

theorem listed_or_terminal {submits : List Submit} {i : Nat} {submit : Submit}
    (there : submits[i]? = some submit) {row : OrderRow} (stored : submit.life.db.row = some row) :
    i ∈ openOrders false submits ∨ row.status.isTerminal = true := by
  cases terminal : row.status.isTerminal with
  | true => exact .inr rfl
  | false =>
    left
    obtain ⟨inside, _⟩ := List.getElem?_eq_some_iff.mp there
    have isOpen : openStatuses.contains row.status = true := by
      cases status : row.status <;> simp_all [OrderStatus.isTerminal, openStatuses]
    simp only [openOrders, List.mem_filter, List.mem_range, there, Option.any_some, Submit.row,
      stored, Option.some_or, isOpen, Bool.false_and, Bool.not_false, Bool.and_true]
    exact ⟨inside, trivial⟩

theorem halt_keeps {s : Killing} (inv : Inv s) (free : rowLocked s = false) :
    Inv { s with strategy := { s.strategy with state := .halted }, stage := .halted } := by
  refine ⟨?_, fun _ => rfl, ?_⟩
  · intro submit member
    have kept := inv.submits submit member
    refine ⟨kept.tracked, kept.entered, fun locked holds => ?_, fun noted => ?_, kept.refusal⟩
    · exact absurd holds (not_holding free member)
    · exact ⟨by simp, (kept.late noted).2⟩
  · intro orders wrong
    cases wrong

theorem list_keeps {s : Killing} (inv : Inv s) (halted : s.stage = .halted) {orders : List Nat}
    (lists : orders.Perm (openOrders false s.submits)) :
    Inv { s with stage := .cancelling orders } := by
  refine ⟨fun submit member => kept_iff (inv.submits submit member) (by simp [halted]),
    fun _ => inv.halted (by simp [halted]), ?_⟩
  intro left still
  cases still
  intro i submit there stored
  obtain ⟨row, found⟩ := Option.ne_none_iff_exists'.mp stored
  rcases listed_or_terminal there found with listed | terminal
  · exact .inl (lists.mem_iff.mpr listed)
  · exact .inr (.inl ⟨row, found, terminal⟩)

theorem cancel_locally_deals {submit : Submit} {report : ControlReport} {snapshot : OrderRow}
    {metadata : EventMetadata} {life : Life} (holds : submit.life.cancels = [.locally snapshot])
    (tracked : Tracked submit.life)
    (moved : OmsOrderLife.step submit.sender submit.life (.cancel (.write 0 killReason metadata)) =
      some life) :
    Dealt (report.note submit.cmd.orderId
      (match OmsOrderEntry.cancelLocally snapshot killReason metadata submit.life.db with
        | .ok _ => none
        | .error failure => some failure.message)) { submit with life } := by
  cases run : OmsOrderEntry.cancelLocally snapshot killReason metadata submit.life.db with
  | error failure => exact .inr (.inr (note_names _ _ failure.message))
  | ok committed =>
    left
    simp only [OmsOrderLife.step, cancelStep, holds, List.getElem?_cons_zero, run] at moved
    cases moved
    obtain ⟨read, isOpen⟩ :=
      tracked.wired.cancels snapshot (by rw [holds]; exact List.mem_cons_self)
    obtain ⟨row, event, stored, _, _, _, rfl⟩ :=
      cancel_locally_cases (reached_numbered tracked.wired.reached) read isOpen run
    exact ⟨_, rfl, rfl⟩

theorem kill_step_keeps {s t : Killing} {a : Action} (inv : Inv s)
    (ok : cancelsRouted s a = false) (next : killStep s a = some t) : Inv t := by
  cases a with
  | halt =>
    simp only [killStep] at next
    split at next
    · rename_i free
      cases next
      exact halt_keeps inv free.2
    · cases next
  | list orders =>
    simp only [killStep] at next
    split at next
    · rename_i lists
      cases next
      exact list_keeps inv lists.1 lists.2.2
    · cases next
  | readOrder =>
    simp only [killStep] at next
    split at next
    · rename_i i orders cancelling
      split at next
      · rename_i submit there
        split at next
        · obtain ⟨life, moved, rfl⟩ := Option.map_eq_some_iff.mp next
          exact ask_keeps inv cancelling there moved
        · rename_i failure _
          cases next
          exact note_keeps inv cancelling there failure.message
      · cases next
    · cases next
  | forbid message =>
    simp only [killStep] at next
    split at next
    · rename_i i orders cancelling
      split at next
      · rename_i submit there
        cases next
        exact note_keeps inv cancelling there message
      · cases next
    · cases next
  | sendCancel rejected =>
    simp only [killStep] at next
    split at next
    · rename_i i orders asking
      split at next
      · rename_i submit there
        split at next
        · rename_i externalOrderId holds
          refine answer_keeps inv asking there rfl ?_ next
          intro life moved
          right
          left
          simp only [OmsOrderLife.step, cancelStep, holds, List.getElem?_cons_zero] at moved
          cases moved
          rfl
        · cases next
      · cases next
    · cases next
  | cannotSend message =>
    simp only [killStep] at next
    split at next
    · rename_i i orders asking
      split at next
      · rename_i submit there
        split at next
        · refine answer_keeps inv asking there rfl ?_ next
          exact fun life _ => .inr (.inr (note_names _ _ message))
        · cases next
      · cases next
    · cases next
  | cancelLocally metadata =>
    simp only [killStep] at next
    split at next
    · rename_i i orders asking
      split at next
      · rename_i submit there
        split at next
        · rename_i snapshot holds
          have kept := inv.submits submit (List.mem_of_getElem? there)
          refine answer_keeps inv asking there ?_ ?_ next
          · simpa [cancelsRouted, asking, there] using ok
          · exact fun life moved => cancel_locally_deals holds kept.tracked moved
        · cases next
      · cases next
    · cases next
  | finish =>
    simp only [killStep] at next
    split at next
    · rename_i done
      cases next
      refine ⟨fun submit member => kept_iff (inv.submits submit member) (by simp [done]),
        fun _ => inv.halted (by simp [done]), ?_⟩
      intro left still
      cases still
      exact inv.todo [] (by rw [done]; rfl)
    · cases next
  | _ => cases next

theorem begin_keeps {s : Killing} (inv : Inv s) (sender : Sender) (cmd : SubmitOrder)
    (principalId : String) (origin : Origin) :
    Inv { s with submits := s.submits ++ [.new sender cmd principalId origin] } := by
  refine ⟨?_, inv.halted, ?_⟩
  · intro submit member
    rcases List.mem_append.mp member with old | new
    · exact inv.submits submit old
    · cases List.mem_singleton.mp new
      refine ⟨start_tracked none, fun _ => rfl, ?_, ?_, ?_⟩
      · intro locked holds
        cases holds
      · intro noted
        cases noted
      · intro row missing
        cases missing
  · intro orders left i submit there stored
    rcases at_append there with ⟨_, old⟩ | ⟨_, new⟩
    · exact inv.todo orders left i submit old stored
    · rw [new] at stored
      exact absurd rfl stored

theorem step_keeps {s t : Killing} {a : Action} (inv : Inv s) (ok : cancelsRouted s a = false)
    (within : booksBeyond s a = false) (next : step s a = some t) : Inv t := by
  rcases step_cases next with ⟨_, _, _, _, rfl⟩ | ⟨i, submit, there, place, own⟩ | own
  · exact begin_keeps inv _ _ _ _
  · refine submit_step_keeps inv there ?_ own
    rintro j a rfl
    cases place j a rfl
    simpa [booksBeyond, there] using within
  · exact kill_step_keeps inv ok own

theorem inv_complete {s : Killing} (inv : Inv s) : Complete s := by
  constructor
  · intro returned all submit member stored
    have kept := inv.submits submit member
    have admitted : submit.tx1 = .admitted := by
      by_contra apart
      exact stored (kept.entered apart)
    have stage : submit.life.stage = .returned := by
      rcases all submit member with finished | ⟨_, stage⟩
      · rw [finished] at admitted
        cases admitted
      · exact stage
    obtain ⟨i, there⟩ := List.getElem?_of_mem member
    have dealt := (inv.todo [] (by rw [returned]; rfl) i submit there stored).resolve_left (by simp)
    rcases dealt with ⟨row, found, terminal⟩ | sent | named
    · rcases returned_done kept.tracked stage found terminal with idle | sent
      · exact .inl ⟨row, found, terminal, idle⟩
      · exact .inr (.inl sent)
    · exact .inr (.inl sent)
    · exact .inr (.inr named)
  · intro submit member noted row there
    have kept := inv.submits submit member
    have own := (kept.late noted).2
    simp only [Submit.row, own, Option.none_or] at there
    exact kept.refusal row there

/-- As long as no local cancel of the Kill commits behind an order's route step,
    and no fill is booked that the venue has not executed, the Kill is complete. -/
theorem kill_completes (strategy : Strategy) (as : List Action)
    (steps : Along step (fun s a => cancelsRouted s a = false ∧ booksBeyond s a = false)
      (.start strategy) as) :
    Throughout step Complete (.start strategy) as :=
  throughout_mono (fun _ => inv_complete)
    (throughout_along (fun _ _ _ inv ok next => step_keeps inv ok.1 ok.2 next)
      (start_inv strategy) steps)

def trader : Strategy := ⟨"s", "u1", .active, ⟨none, none, none, none⟩, none⟩

def unlimited : Reads := ⟨true, true, none, ⟨0, 0⟩, "USD", none, 1⟩

def beginOrder (orderId : String) : Action :=
  .begin ⟨orderId, "PAPER", "paper", stamp⟩ { buyTen with orderId := orderId } "u1" .api

def admits (i : Nat) : List Action := [.lock i, .check i unlimited stamp "paper"]

def onOrder (i : Nat) (as : List OmsOrderLife.Action) : List Action := as.map (.order i)

def routes (i : Nat) (externalOrderId : String) : List Action :=
  onOrder i [.submit (.answerOk externalOrderId), .submit .readRoute, .submit (.writeRoute stamp)]

/-- A routed order is cancelled at the broker, one in flight locally and then by its
    submit, and a submit that comes too late is refused. -/
def killThree : List Action :=
  [beginOrder "o1", beginOrder "o2", beginOrder "o3"] ++ admits 0 ++
    onOrder 0 [.submit .send, .venue .accept] ++ routes 0 "v1" ++ admits 1 ++
    onOrder 1 [.submit .send, .venue .accept] ++ [.halt, .list [0, 1]] ++ admits 2 ++
    [.record 2 stamp stamp "paper", .readOrder, .sendCancel none, .readOrder,
      .cancelLocally stamp] ++ routes 1 "v2" ++ onOrder 1 [.submit .sendCancel] ++ [.finish]

theorem kill_three_completes :
    (∃ t ∈ run step (.start trader) killThree,
      t.stage = .returned ∧ ∀ submit ∈ t.submits, submit.Returned) ∧
      Throughout step Complete (.start trader) killThree :=
  ⟨by decide +kernel, kill_completes trader killThree (by decide +kernel)⟩

/-- A fill makes the order partially filled before its route step, which puts the
    venue's id on record between the Kill's read and its local cancel. -/
def killOvertakesRoute : List Action :=
  [beginOrder "o1"] ++ admits 0 ++
    onOrder 0 [.submit .send, .venue .accept, .venue (.execute ⟨"x1", 4, 100⟩),
      .venue (.deliverFill 0), .engine .take, .engine .read, .engine (.write stamp)] ++
    [.halt, .list [0], .readOrder] ++ routes 0 "v1" ++ [.cancelLocally stamp, .finish]

/-- The order is canceled here and worked there, and nobody was told. -/
theorem kill_overtakes_route_incomplete :
    ¬ Throughout step Complete (.start trader) killOvertakesRoute :=
  not_throughout (by decide +kernel)

end OmsKill
