import OpenOms.Allocations
import OpenOms.Scope

/-!
Allocation requests among submits, reports, routes and cancels of any orders. A
request reads its order, then sums what is already allocated, and only then runs
its transaction; nothing holds the sum in place in between.
-/
namespace OmsBlockAllocations
open OmsOrders OmsAggregate OmsPositions OmsOrderStore OmsExecution OmsOrderEntry OmsOrderWrites
open OmsOrderEngine OmsRiskEngine OmsScope OmsPositionWriters OmsAllocations Lists Runs

/-- A request between two of its statements; `already` is the sum it has read. -/
structure Request where
  block : Block
  splits : List AllocationSplit
  already : Option ℚ
  deriving DecidableEq, Repr

structure Books where
  orders : String → Option StoredOrder
  positions : Positions
  portfolios : List String
  allocations : List Allocation
  requests : List Request

def Books.start (portfolios : List String) (positions : Positions) : Books :=
  ⟨fun _ => none, positions, portfolios, [], []⟩

inductive Action where
  | submit (cmd : SubmitOrder) (metadata : EventMetadata) (brokerConnectionCode : String)
      (createdAt : Nat)
  | report (orderId : String) (fates : List AttemptFate) (report : ExecutionReport)
      (metadata : EventMetadata)
  | route (orderId venue externalOrderId : String) (metadata : EventMetadata)
  | cancel (orderId : String) (reason : Option String) (metadata : EventMetadata)
  | request (orderId : String) (splits : List AllocationSplit)
  | validate (i : Nat) (canAllocate : Bool)
  | commit (i : Nat)
  | drop (i : Nat)
  deriving DecidableEq, Repr

def positionKey (order : StoredOrder) : PositionKey :=
  ⟨order.row.portfolioId, order.row.instrumentId⟩

def transact (s : Books) (orderId : String) (tx : OrderDb → OrderDb) : Option Books :=
  match s.orders orderId with
  | none => none
  | some order =>
    let key := positionKey order
    let next := order.transact tx (s.positions key)
    some { s with
      orders := Function.update s.orders orderId (some next.1)
      positions := Function.update s.positions key next.2 }

def commitRequest (s : Books) (i : Nat) (request : Request) : Books :=
  let stored := allocate request.block request.splits (s.allocations, s.positions)
  { s with allocations := stored.1, positions := stored.2, requests := s.requests.eraseIdx i }

def step (s : Books) : Action → Option Books
  | .submit cmd metadata brokerConnectionCode createdAt =>
    if (s.orders cmd.orderId).isSome then some s
    else
      match submitOrder cmd metadata brokerConnectionCode createdAt with
      | none => some s
      | some order => some { s with orders := Function.update s.orders cmd.orderId (some order) }
  | .report orderId fates report metadata => transact s orderId (bookReport fates report metadata)
  | .route orderId venue externalOrderId metadata =>
    transact s orderId (commitNow (.route venue externalOrderId metadata))
  | .cancel orderId reason metadata => transact s orderId (commitNow (.cancel reason metadata))
  | .request orderId splits =>
    match loadBlock orderId ((s.orders orderId).map (·.row)) with
    | .error _ => some s
    | .ok block => some { s with requests := s.requests ++ [⟨block, splits, none⟩] }
  | .validate i canAllocate =>
    match s.requests[i]? with
    | none => none
    | some request =>
      let already := allocatedQty request.block.orderId s.allocations
      match checkSplits canAllocate request.block request.splits already s.portfolios with
      | .error _ => some { s with requests := s.requests.eraseIdx i }
      | .ok () =>
        some { s with requests := s.requests.set i { request with already := some already } }
  | .commit i =>
    match s.requests[i]? with
    | none => none
    | some request =>
      match request.already with
      | none => none
      | some _ => some (commitRequest s i request)
  | .drop i => some { s with requests := s.requests.eraseIdx i }

def WithinFilled (s : Books) : Prop :=
  ∀ orderId order, s.orders orderId = some order →
    allocatedQty orderId s.allocations ≤ order.row.cumQty + tolerance

def Overtaken (s : Books) (a : Action) : Prop :=
  match a with
  | .commit i => ∃ request ∈ s.requests[i]?, ∃ already ∈ request.already,
      already ≠ allocatedQty request.block.orderId s.allocations
  | _ => False

instance (s : Books) (a : Action) : Decidable (Overtaken s a) := by
  unfold Overtaken
  split <;> infer_instance

structure Pending (orders : String → Option StoredOrder) (request : Request) : Prop where
  filled : ∃ order, orders request.block.orderId = some order ∧
    request.block.cumQty ≤ order.row.cumQty
  admitted : ∀ already, request.already = some already →
    Admits request.block request.splits already

structure Inv (s : Books) : Prop where
  sound : ∀ orderId order, s.orders orderId = some order → Sound order
  known : ∀ allocation ∈ s.allocations, (s.orders allocation.orderId).isSome
  pending : ∀ request ∈ s.requests, Pending s.orders request

theorem start_inv (portfolios : List String) (positions : Positions) :
    Inv (.start portfolios positions) :=
  ⟨by simp [Books.start], by simp [Books.start], by simp [Books.start]⟩

structure Grows (order : StoredOrder) (next : OrderDb) : Prop where
  sound : Sound (order.of next)
  cum : order.row.cumQty ≤ (order.of next).row.cumQty

theorem write_grows {order : StoredOrder} {position : Option PositionMath} (sound : Sound order)
    {kind : WriteKind} {next : OrderDb} (write : Write (order.db position) kind next) :
    Grows order next := by
  obtain ⟨row, stored, more⟩ :=
    write_cum_grows write (show (order.db position).row = some order.row from rfl)
  refine ⟨sound_of_write sound write, ?_⟩
  simpa [StoredOrder.of, stored] using more

theorem still_grows {order : StoredOrder} (sound : Sound order)
    (position : Option PositionMath) : Grows order (order.db position) :=
  ⟨sound, le_refl _⟩

theorem book_grows {order : StoredOrder} (sound : Sound order) (position : Option PositionMath)
    (fates : List AttemptFate) (report : ExecutionReport) (metadata : EventMetadata) :
    Grows order (bookReport fates report metadata (order.db position)) := by
  rcases book_report_cases (sound_numbered sound position) (sound_lively sound position) fates
    report metadata with ⟨same, _⟩ | ⟨row, event, _, _, _, _, same, write⟩
  · rw [same]
    exact still_grows sound position
  · rw [same]
    exact write_grows sound write

theorem commit_grows {order : StoredOrder} (sound : Sound order) (position : Option PositionMath)
    {writer : Writer} (entry : FromEntry writer) :
    Grows order (commitNow writer (order.db position)) := by
  rcases commit_now_writes (sound_numbered sound position) (sound_lively sound position) entry with
    same | ⟨kind, _, write⟩
  · rw [same]
    exact still_grows sound position
  · exact write_grows sound write

def Grown (orders grown : String → Option StoredOrder) : Prop :=
  ∀ orderId order, orders orderId = some order →
    ∃ next, grown orderId = some next ∧ order.row.cumQty ≤ next.row.cumQty

theorem pending_grown {orders grown : String → Option StoredOrder} (more : Grown orders grown)
    {request : Request} (pending : Pending orders request) : Pending grown request := by
  obtain ⟨order, there, filled⟩ := pending.filled
  obtain ⟨next, kept, cum⟩ := more _ order there
  exact ⟨⟨next, kept, le_trans filled cum⟩, pending.admitted⟩

theorem grown_keeps {s t : Books} (inv : Inv s) (more : Grown s.orders t.orders)
    (sound : ∀ orderId order, t.orders orderId = some order → Sound order)
    (allocations : t.allocations = s.allocations) (requests : t.requests = s.requests) :
    Inv t := by
  refine ⟨sound, ?_, ?_⟩
  · intro allocation member
    rw [allocations] at member
    obtain ⟨order, there⟩ := Option.isSome_iff_exists.mp (inv.known allocation member)
    obtain ⟨next, kept, _⟩ := more _ order there
    simp [kept]
  · intro request member
    rw [requests] at member
    exact pending_grown more (inv.pending request member)

theorem update_order {orders : String → Option StoredOrder} {orderId other : String}
    {order found : StoredOrder}
    (stored : Function.update orders orderId (some order) other = some found) :
    other = orderId ∧ found = order ∨ orders other = some found := by
  by_cases same : other = orderId
  · subst same
    rw [Function.update_self] at stored
    cases stored
    exact .inl ⟨rfl, rfl⟩
  · rw [Function.update_of_ne same] at stored
    exact .inr stored

theorem transact_keeps {s t : Books} (inv : Inv s) {orderId : String} {tx : OrderDb → OrderDb}
    (grows : ∀ order position, Sound order → Grows order (tx (order.db position)))
    (next : transact s orderId tx = some t) : Inv t ∧ (WithinFilled s → WithinFilled t) := by
  unfold transact at next
  split at next
  · cases next
  rename_i order there
  cases next
  have grown := grows order (s.positions (positionKey order)) (inv.sound orderId order there)
  unfold StoredOrder.transact
  generalize tx (order.db (s.positions (positionKey order))) = db at grown
  have more : Grown s.orders (Function.update s.orders orderId (some (order.of db))) := by
    intro other found stored
    by_cases same : other = orderId
    · subst same
      cases there.symm.trans stored
      exact ⟨_, Function.update_self .., grown.cum⟩
    · exact ⟨found, by rw [Function.update_of_ne same]; exact stored, le_refl _⟩
  constructor
  · refine grown_keeps inv more ?_ rfl rfl
    intro other found stored
    rcases update_order stored with ⟨rfl, rfl⟩ | old
    · exact grown.sound
    · exact inv.sound other found old
  · intro within other found stored
    rcases update_order stored with ⟨rfl, rfl⟩ | old
    · have filled := grown.cum
      have allocated := within other order there
      change allocatedQty other s.allocations ≤ _
      linarith
    · exact within other found old

theorem allocated_unknown {s : Books} (inv : Inv s) {orderId : String}
    (absent : s.orders orderId = none) : allocatedQty orderId s.allocations = 0 := by
  have none_of : s.allocations.filter (fun allocation => allocation.orderId = orderId) = [] := by
    rw [List.filter_eq_nil_iff]
    intro allocation member
    rw [decide_eq_true_eq]
    rintro rfl
    have stored := inv.known allocation member
    simp [absent] at stored
  simp [allocatedQty, none_of]

theorem submit_keeps {s : Books} (inv : Inv s) {orderId : String}
    (absent : s.orders orderId = none) {cmd : SubmitOrder} {metadata : EventMetadata}
    {code : String} {createdAt : Nat} {order : StoredOrder}
    (inserted : submitOrder cmd metadata code createdAt = some order) :
    Inv { s with orders := Function.update s.orders orderId (some order) } ∧
      (WithinFilled s →
        WithinFilled { s with orders := Function.update s.orders orderId (some order) }) := by
  obtain ⟨sound, _, _⟩ := submit_order_opens inserted
  have more : Grown s.orders (Function.update s.orders orderId (some order)) := by
    intro other found stored
    have away : other ≠ orderId := by
      rintro rfl
      cases absent.symm.trans stored
    exact ⟨found, by rw [Function.update_of_ne away]; exact stored, le_refl _⟩
  constructor
  · refine grown_keeps inv more ?_ rfl rfl
    intro other found stored
    rcases update_order stored with ⟨rfl, rfl⟩ | old
    · exact sound
    · exact inv.sound other found old
  · intro within other found stored
    rcases update_order stored with ⟨rfl, rfl⟩ | old
    · have filled := sound.lively.cumNonneg
      change allocatedQty other s.allocations ≤ found.row.cumQty + tolerance
      rw [allocated_unknown inv absent, tolerance]
      linarith
    · exact within other found old

theorem requests_keep {s : Books} (inv : Inv s) {requests : List Request}
    (pending : ∀ request ∈ requests, Pending s.orders request) :
    Inv { s with requests := requests } :=
  ⟨inv.sound, inv.known, pending⟩

theorem commit_allocations (s : Books) (i : Nat) (request : Request) :
    (commitRequest s i request).allocations =
      s.allocations ++ request.splits.map request.block.allocation := by
  rw [commitRequest, allocate_eq]

theorem commit_keeps {s : Books} (inv : Inv s) {i : Nat} {request : Request}
    (there : s.requests[i]? = some request) : Inv (commitRequest s i request) := by
  obtain ⟨order, stored, _⟩ := (inv.pending request (List.mem_of_getElem? there)).filled
  refine ⟨inv.sound, ?_, fun other member => inv.pending other (List.mem_of_mem_eraseIdx member)⟩
  intro allocation member
  rw [commit_allocations] at member
  rcases List.mem_append.mp member with old | new
  · exact inv.known allocation old
  · obtain ⟨split, _, rfl⟩ := List.mem_map.mp new
    exact Option.isSome_iff_exists.mpr ⟨order, stored⟩

theorem commit_within {s : Books} (inv : Inv s) (within : WithinFilled s) {i : Nat}
    {request : Request} (there : s.requests[i]? = some request) {already : ℚ}
    (summed : request.already = some already)
    (stands : already = allocatedQty request.block.orderId s.allocations) :
    WithinFilled (commitRequest s i request) := by
  have pending := inv.pending request (List.mem_of_getElem? there)
  obtain ⟨order, stored, filled⟩ := pending.filled
  have capped := (pending.admitted already summed).capped
  intro orderId found held
  change s.orders orderId = some found at held
  rw [commit_allocations, allocated_qty_append, allocated_qty_of_block]
  by_cases own : request.block.orderId = orderId
  · subst own
    cases stored.symm.trans held
    rw [if_pos rfl, ← stands]
    linarith
  · rw [if_neg own, add_zero]
    exact within orderId found held

theorem step_keeps {s t : Books} {a : Action} (inv : Inv s) (next : step s a = some t) :
    Inv t ∧ (WithinFilled s → ¬ Overtaken s a → WithinFilled t) := by
  have requests_only : ∀ {requests}, t = { s with requests := requests } →
      (∀ request ∈ requests, Pending s.orders request) →
      Inv t ∧ (WithinFilled s → ¬ Overtaken s a → WithinFilled t) := by
    rintro requests rfl pending
    exact ⟨requests_keep inv pending, fun within _ => within⟩
  have dropped : ∀ i, ∀ other ∈ s.requests.eraseIdx i, Pending s.orders other :=
    fun i other member => inv.pending other (List.mem_of_mem_eraseIdx member)
  have transacted : ∀ {orderId tx}, transact s orderId tx = some t →
      (∀ order position, Sound order → Grows order (tx (order.db position))) →
      Inv t ∧ (WithinFilled s → ¬ Overtaken s a → WithinFilled t) := by
    intro orderId tx done grows
    obtain ⟨kept, within⟩ := transact_keeps inv grows done
    exact ⟨kept, fun before _ => within before⟩
  cases a with
  | submit cmd metadata code createdAt =>
    simp only [step] at next
    split at next
    · cases next
      exact ⟨inv, fun within _ => within⟩
    rename_i absent
    split at next
    · cases next
      exact ⟨inv, fun within _ => within⟩
    rename_i order inserted
    cases next
    obtain ⟨kept, within⟩ := submit_keeps inv (by simpa using absent) inserted
    exact ⟨kept, fun before _ => within before⟩
  | report orderId fates report metadata =>
    exact transacted next fun order position sound =>
      book_grows sound position fates report metadata
  | route orderId venue externalOrderId metadata =>
    exact transacted next fun order position sound => commit_grows sound position trivial
  | cancel orderId reason metadata =>
    exact transacted next fun order position sound => commit_grows sound position trivial
  | request orderId splits =>
    simp only [step] at next
    split at next
    · cases next
      exact ⟨inv, fun within _ => within⟩
    rename_i block loads
    cases next
    refine requests_only rfl ?_
    intro request member
    rcases List.mem_append.mp member with old | new
    · exact inv.pending request old
    · cases List.mem_singleton.mp new
      obtain ⟨rfl, row, found, cum⟩ := load_block_ok loads
      obtain ⟨order, stored, rfl⟩ := Option.map_eq_some_iff.mp found
      exact ⟨⟨order, stored, cum.le⟩, by simp⟩
  | validate i canAllocate =>
    simp only [step] at next
    split at next
    · cases next
    rename_i request there
    split at next
    · cases next
      exact requests_only rfl (dropped i)
    rename_i passes
    cases next
    refine requests_only rfl (forall_mem_set inv.pending ?_)
    refine ⟨(inv.pending request (List.mem_of_getElem? there)).filled, ?_⟩
    intro already summed
    cases summed
    exact check_splits_admits passes
  | commit i =>
    simp only [step] at next
    split at next
    · cases next
    rename_i request there
    split at next
    · cases next
    rename_i already summed
    cases next
    refine ⟨commit_keeps inv there, fun within ok => commit_within inv within there summed ?_⟩
    by_contra moved
    exact ok ⟨request, there, already, summed, moved⟩
  | drop i =>
    cases next
    exact requests_only rfl (dropped i)

theorem start_within (portfolios : List String) (positions : Positions) :
    WithinFilled (.start portfolios positions) := by
  intro orderId order missing
  cases missing

/-- Where no request is overtaken, no order is allocated beyond its fills. -/
theorem allocations_within_filled (portfolios : List String) (positions : Positions)
    (as : List Action)
    (steps : Along step (fun s a => ¬ Overtaken s a) (.start portfolios positions) as) :
    Throughout step WithinFilled (.start portfolios positions) as := by
  have keeps : ∀ s a t, Inv s ∧ WithinFilled s → ¬ Overtaken s a → step s a = some t →
      Inv t ∧ WithinFilled t := by
    rintro s a t ⟨inv, within⟩ ok next
    obtain ⟨kept, filled⟩ := step_keeps inv next
    exact ⟨kept, filled within ok⟩
  exact throughout_mono (fun _ kept => kept.2) (throughout_along keeps
    ⟨start_inv portfolios positions, start_within portfolios positions⟩ steps)

def filledTen (order : SubmitOrder) : List Action :=
  [.submit order stamp "paper" 0,
    .report order.orderId [] (.fill "x" order.quantity 100 "V") stamp]

def portfolios : List String := ["p1", "p2", "p3"]

/-- Ten bought, four and six of them allocated one after the other, a third
    request refused. -/
def allocateTwice : List Action :=
  filledTen buyTen ++ [.request "o1" [⟨"p2", 4⟩], .validate 0 true, .commit 0,
    .request "o1" [⟨"p2", 4⟩, ⟨"p3", 2⟩], .validate 0 true, .commit 0,
    .request "o1" [⟨"p3", 1⟩], .validate 0 true]

theorem allocate_twice_within :
    Throughout step WithinFilled (.start portfolios noPositions) allocateTwice :=
  allocations_within_filled portfolios noPositions allocateTwice (by decide +kernel)

/-- Two requests for all of it sum before either commits. -/
theorem overtaken_request_over_allocates :
    ¬ ∀ as, Throughout step WithinFilled (.start portfolios noPositions) as := by
  intro always
  have last := throughout_end (always (filledTen buyTen ++
    [.request "o1" [⟨"p2", 10⟩], .request "o1" [⟨"p3", 10⟩], .validate 0 true, .validate 1 true,
      .commit 0, .commit 0]))
  have within := fun s ends order => last s ends "o1" order
  revert within
  decide +kernel

/-- Each of the request's transfers to another portfolio, from the positions the
    ones before it leave. -/
def EachTransfer (law : Positions → AllocationSplit → Prop) (block : Block)
    (positions : Positions) : List AllocationSplit → Prop
  | [] => True
  | split :: splits =>
    (split.portfolioId ≠ block.fromPortfolio → law positions split) ∧
      EachTransfer law block (block.transfer positions split) splits

def Admitted (law : Block → Positions → AllocationSplit → Prop) (s : Books) : Prop :=
  ∀ request ∈ s.requests, request.already.isSome →
    EachTransfer (law request.block) request.block s.positions request.splits

theorem each_transfer_of {block : Block} {law : Positions → AllocationSplit → Prop}
    {splits : List AllocationSplit} (positions : Positions)
    (holds : ∀ positions, ∀ split ∈ splits, split.portfolioId ≠ block.fromPortfolio →
      law positions split) : EachTransfer law block positions splits := by
  induction splits generalizing positions with
  | nil => trivial
  | cons split splits ih =>
    refine ⟨holds positions split List.mem_cons_self, ih _ ?_⟩
    exact fun positions' other member => holds positions' other (List.mem_cons_of_mem _ member)

/-- At any time, a transfer of an admitted request is lawful exactly when the
    source portfolio covers it then, whatever the order has filled. -/
theorem transfers_lawful_iff_covered (portfolios : List String) (positions : Positions)
    (as : List Action) :
    Throughout step
      (Admitted fun block positions split =>
        Lawful block positions split ↔ Covered block positions split)
      (.start portfolios positions) as := by
  refine throughout_mono (fun s inv request member summed => ?_) (throughout_keeps
    (fun _ _ _ inv next => (step_keeps inv next).1) (start_inv portfolios positions) as)
  obtain ⟨already, sum⟩ := Option.isSome_iff_exists.mp summed
  have admitted := (inv.pending request member).admitted already sum
  refine each_transfer_of s.positions fun before split there apart => ?_
  exact transfer_lawful_iff (admitted.positive split there) apart before

instance decidableEachTransfer {law : Positions → AllocationSplit → Prop}
    [∀ positions split, Decidable (law positions split)] (block : Block) :
    (positions : Positions) → (splits : List AllocationSplit) →
      Decidable (EachTransfer law block positions splits)
  | _, [] => isTrue trivial
  | positions, split :: splits =>
    have : Decidable (EachTransfer law block (block.transfer positions split) splits) :=
      decidableEachTransfer block _ splits
    inferInstanceAs (Decidable (_ ∧ _))

instance (law : Block → Positions → AllocationSplit → Prop)
    [∀ block positions split, Decidable (law block positions split)] (s : Books) :
    Decidable (Admitted law s) := by
  unfold Admitted
  infer_instance

/-- Another order of the portfolio has sold eight of the ten bought: allocating
    the ten leaves the source short of eight. -/
theorem allocation_over_draws :
    ¬ ∀ as, Throughout step (Admitted Lawful) (.start portfolios noPositions) as := by
  intro always
  have last := throughout_end (always (filledTen buyTen ++
    filledTen { buyTen with orderId := "o2", side := .sell, quantity := 8 } ++
    [.request "o1" [⟨"p2", 10⟩], .validate 0 true]))
  revert last
  decide +kernel

end OmsBlockAllocations
