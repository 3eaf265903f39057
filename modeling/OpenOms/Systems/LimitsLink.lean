import OpenOms.Colo.RiskBook
import OpenOms.Library.Downlink
import OpenOms.Library.Lists
import OpenOms.Library.Runs

/-!
The limits of one co-located strategy on their way to its risk book: admin
updates that store, reload the registry and push what it then holds, and
connections that are sent the registry's limits first. Nothing on the way looks
at the versions, so what is told last is what the book enforces.
-/
namespace OmsLimitsLink
open OmsRisk OmsGuard OmsColo Downlink Lists Runs

structure StrategyRow extends Registered where
  senderCompId : String
  targetCompId : String
  deriving DecidableEq, Repr

structure UpdateStrategy where
  senderCompId : Option String
  targetCompId : Option String
  maxOrderQuantity : Option ℚ
  maxOrderNotional : Option ℚ
  maxPositionQuantity : Option ℚ
  maxPositionNotional : Option ℚ
  priceBandPct : Option ℚ
  mode : Option Mode
  deadManSecs : Option Nat
  maxOrdersPerSec : Option Nat
  deriving DecidableEq, Repr

def changesLimits (p : UpdateStrategy) : Bool :=
  p.maxOrderQuantity.isSome || p.maxOrderNotional.isSome || p.maxPositionQuantity.isSome ||
    p.maxPositionNotional.isSome || p.priceBandPct.isSome || p.maxOrdersPerSec.isSome

/-- The UPDATE: `COALESCE` of each column, and the version's bump. -/
def updateRow (row : StrategyRow) (p : UpdateStrategy) : StrategyRow :=
  { row with
    senderCompId := p.senderCompId.getD row.senderCompId
    targetCompId := p.targetCompId.getD row.targetCompId
    limits :=
      { maxOrderQuantity := p.maxOrderQuantity.or row.limits.maxOrderQuantity
        maxOrderNotional := p.maxOrderNotional.or row.limits.maxOrderNotional
        maxPositionQuantity := p.maxPositionQuantity.or row.limits.maxPositionQuantity
        maxPositionNotional := p.maxPositionNotional.or row.limits.maxPositionNotional }
    priceBandPct := p.priceBandPct.or row.priceBandPct
    mode := p.mode.getD row.mode
    deadManSecs := p.deadManSecs.getD row.deadManSecs
    maxOrdersPerSec := p.maxOrdersPerSec.or row.maxOrdersPerSec
    limitsVersion := row.limitsVersion + if changesLimits p then 1 else 0 }

def isWhiteSpace (c : Char) : Bool :=
  (9 ≤ c.toNat && c.toNat ≤ 13) || (0x2000 ≤ c.toNat && c.toNat ≤ 0x200A) ||
    [0x20, 0x85, 0xA0, 0x1680, 0x2028, 0x2029, 0x202F, 0x205F, 0x3000].contains c.toNat

def validateCompIds (sender target : String) : Except String Unit :=
  if sender.toList.all isWhiteSpace || target.toList.all isWhiteSpace then
    .error "sender_comp_id and target_comp_id are required"
  else .ok ()

inductive Call where
  | store (p : UpdateStrategy)
  | select (pushes : Bool)
  | publish (read : StrategyRow) (pushes : Bool)
  | look
  | push (limits : Limits) (limitsVersion : Nat)
  deriving DecidableEq, Repr

/-- `received` is what the strategy's end has taken off a link and not applied. -/
structure LimitsLink where
  row : StrategyRow
  registry : StrategyRow
  calls : List Call
  link : Option (Link ToStrategy)
  received : List ToStrategy
  maker : MarketMaker
  deriving DecidableEq, Repr

def LimitsLink.start (row : StrategyRow) (maker : MarketMaker) : LimitsLink :=
  ⟨row, row, [], none, [], maker⟩

def stored (row : StrategyRow) : Limits × Nat := (row.riskLimits, (max row.limitsVersion 0).toNat)

inductive Action where
  | update (p : UpdateStrategy)
  | reload
  | store (i : Nat)
  | fail (i : Nat)
  | select (i : Nat)
  | reloadFails (i : Nat)
  | publish (i : Nat)
  | look (i : Nat)
  | push (i : Nat)
  | connect
  | sendState (positions : List Position)
  | tell (msg : ToStrategy)
  | drop
  | receive
  | apply (now : Nat)
  deriving DecidableEq, Repr

def pushDown (s : LimitsLink) (msg : ToStrategy) : LimitsLink :=
  { s with link := Downlink.push s.link msg }

def reloaded (s : LimitsLink) (i : Nat) (pushes : Bool) : LimitsLink :=
  { s with calls := if pushes then s.calls.set i .look else s.calls.eraseIdx i }

def pushesAfter (row : StrategyRow) (p : UpdateStrategy) : Bool :=
  let updated := updateRow row p
  (validateCompIds updated.senderCompId updated.targetCompId).isOk && changesLimits p &&
    updated.mode = .colocated

def step (s : LimitsLink) : Action → Option LimitsLink
  | .update p => some { s with calls := s.calls ++ [.store p] }
  | .reload => some { s with calls := s.calls ++ [.select false] }
  | .store i =>
    match s.calls[i]? with
    | some (.store p) =>
      let row := updateRow s.row p
      match validateCompIds row.senderCompId row.targetCompId with
      -- The error is answered with the row stored already.
      | .error _ => some { s with row, calls := s.calls.eraseIdx i }
      | .ok () =>
        let pushes : Bool := changesLimits p && row.mode = .colocated
        some { s with row, calls := s.calls.set i (.select pushes) }
    | _ => none
  | .fail i =>
    match s.calls[i]? with
    | some (.store _) => some { s with calls := s.calls.eraseIdx i }
    | _ => none
  | .select i =>
    match s.calls[i]? with
    | some (.select pushes) => some { s with calls := s.calls.set i (.publish s.row pushes) }
    | _ => none
  | .reloadFails i =>
    match s.calls[i]? with
    | some (.select pushes) => some (reloaded s i pushes)
    | _ => none
  | .publish i =>
    match s.calls[i]? with
    | some (.publish read pushes) => some (reloaded { s with registry := read } i pushes)
    | _ => none
  | .look i =>
    match s.calls[i]? with
    | some .look =>
      let (limits, limitsVersion) := stored s.registry
      some { s with calls := s.calls.set i (.push limits limitsVersion) }
    | _ => none
  | .push i =>
    match s.calls[i]? with
    | some (.push limits limitsVersion) =>
      some { pushDown s (.limits limits limitsVersion) with calls := s.calls.eraseIdx i }
    | _ => none
  | .connect =>
    if s.registry.mode = .colocated then some { s with link := some ⟨false, []⟩ } else none
  -- Pushes made since the connect wait behind the state.
  | .sendState positions =>
    match s.link with
    | some ⟨false, queue⟩ =>
      let first := initialState (some s.registry.toRegistered) positions
      some { s with link := some ⟨true, first :: queue⟩ }
    | _ => none
  | .tell msg => if msg.setsLimits = none then some (pushDown s msg) else none
  | .drop => some { s with link := none }
  | .receive =>
    match s.link with
    | some ⟨true, msg :: queue⟩ =>
      some { s with link := some ⟨true, queue⟩, received := s.received ++ [msg] }
    | _ => none
  | .apply now =>
    match s.received with
    | msg :: received => some { s with received, maker := s.maker.onControl msg now }
    | [] => none

def setsWord (msg : ToStrategy) : Option (Option (Limits × Nat)) := msg.setsLimits.map some

/-- What the linked strategy will enforce once it has applied all on its way;
    nothing yet, where that is the state still to be sent. -/
def told (s : LimitsLink) : Option (Limits × Nat) :=
  Downlink.told setsWord none (some s.maker.risk.enforced) s.link s.received

def Call.due : Call → Bool
  | .store _ => false
  | .select pushes => pushes
  | .publish _ pushes => pushes
  | .look => true
  | .push .. => true

def Due (calls : List Call) : Prop := ∃ call ∈ calls, call.due = true

instance (calls : List Call) : Decidable (Due calls) := by
  unfold Due
  infer_instance

/-- While no other call has limits to push still, the link's strategy is left
    with limits that are not the stored ones: an update stores and does not push,
    pushes what another has replaced, or a connection is sent such limits. -/
def Misleads (s : LimitsLink) : Action → Prop
  | .store i =>
    match s.calls[i]? with
    | some (.store p) =>
      changesLimits p = true ∧ pushesAfter s.row p = false ∧ told s ≠ none ∧ ¬ Due s.calls
    | _ => False
  | .push i =>
    match s.calls[i]? with
    | some (.push limits limitsVersion) =>
      (limits, limitsVersion) ≠ stored s.row ∧ s.link ≠ none ∧ ¬ Due (s.calls.eraseIdx i)
    | _ => False
  | .sendState _ => stored s.registry ≠ stored s.row ∧ told s = none ∧ ¬ Due s.calls
  | _ => False

instance (s : LimitsLink) (a : Action) : Decidable (Misleads s a) := by
  unfold Misleads
  split
  · split <;> infer_instance
  · split <;> infer_instance
  · infer_instance
  · infer_instance

def Settled (s : LimitsLink) : Prop :=
  s.calls = [] ∧ (s.link.map fun link => (link.stateSent, link.queue)) = some (true, []) ∧
    s.received = []

instance (s : LimitsLink) : Decidable (Settled s) := by
  unfold Settled
  infer_instance

/-- Once settled, the strategy's book enforces the stored limits under their version. -/
def Converged (s : LimitsLink) : Prop := Settled s → s.maker.risk.enforced = stored s.row

instance (s : LimitsLink) : Decidable (Converged s) := by
  unfold Converged
  infer_instance

def Inv (s : LimitsLink) : Prop := ∀ word ∈ told s, word = stored s.row ∨ Due s.calls

theorem told_frame {s t : LimitsLink} (link : t.link = s.link) (received : t.received = s.received)
    (maker : t.maker = s.maker) : told t = told s := by
  simp [told, link, received, maker]

theorem sets_word (msg : ToStrategy) (before : Option (Limits × Nat)) :
    (setsWord msg).getD before = msg.setsLimits.or before := by
  unfold setsWord
  cases msg.setsLimits <;> rfl

theorem push_told (s : LimitsLink) (msg : ToStrategy) :
    told (pushDown s msg) = if s.link.isSome then msg.setsLimits.or (told s) else none := by
  rw [← sets_word]
  exact told_push s.link s.received msg

theorem due_set {calls : List Call} {i : Nat} {call next : Call} (there : calls[i]? = some call)
    (keeps : call.due = true → next.due = true) (due : Due calls) : Due (calls.set i next) :=
  exists_mem_set there keeps due

theorem due_erase {calls : List Call} {i : Nat} {call : Call} (there : calls[i]? = some call)
    (done : call.due = false) (due : Due calls) : Due (calls.eraseIdx i) := by
  obtain ⟨other, member, owes⟩ := due
  rcases List.mem_cons.mp ((perm_at there).mem_iff.mp member) with rfl | elsewhere
  · rw [done] at owes
    cases owes
  · exact ⟨other, elsewhere, owes⟩

theorem update_row_stored {row : StrategyRow} {p : UpdateStrategy}
    (other : changesLimits p = false) : stored (updateRow row p) = stored row := by
  simp only [changesLimits, Bool.or_eq_false_iff, Option.isSome_eq_false_iff,
    Option.isNone_iff_eq_none] at other
  obtain ⟨⟨⟨⟨⟨qty, notional⟩, positionQty⟩, positionNotional⟩, band⟩, rate⟩ := other
  simp [stored, updateRow, Registered.riskLimits, changesLimits, qty, notional, positionQty,
    positionNotional, band, rate]

theorem start_inv (row : StrategyRow) (maker : MarketMaker) : Inv (.start row maker) := by
  intro word heard
  cases heard

theorem quiet_keeps {s t : LimitsLink} (inv : Inv s) (link : t.link = s.link)
    (received : t.received = s.received) (maker : t.maker = s.maker) (row : t.row = s.row)
    (due : Due s.calls → Due t.calls) : Inv t := by
  intro word heard
  rw [told_frame link received maker] at heard
  rw [row]
  exact (inv word heard).imp_right due

theorem reloaded_due {s : LimitsLink} {i : Nat} {call : Call} {pushes : Bool}
    (there : s.calls[i]? = some call) (same : call.due = pushes) (due : Due s.calls) :
    Due (reloaded s i pushes).calls := by
  cases pushes with
  | true => exact due_set there (fun _ => rfl) due
  | false => exact due_erase there same due

theorem store_keeps {s t : LimitsLink} {i : Nat} {p : UpdateStrategy} (inv : Inv s)
    (there : s.calls[i]? = some (.store p)) (ok : ¬ Misleads s (.store i))
    (next : step s (.store i) = some t) : Inv t := by
  simp only [step, there] at next
  simp only [Misleads, there, not_and, not_not] at ok
  have stays : changesLimits p = false ∨ Due s.calls ∨ told s = none ∨
      pushesAfter s.row p = true := by
    by_contra moved
    simp only [not_or, Bool.not_eq_false, Bool.not_eq_true] at moved
    exact moved.2.1 (ok moved.1 moved.2.2.2 moved.2.2.1)
  have settles : ∀ {t : LimitsLink}, t.link = s.link → t.received = s.received →
      t.maker = s.maker → t.row = updateRow s.row p → (Due s.calls → Due t.calls) →
      (pushesAfter s.row p = true → Due t.calls) → Inv t := by
    intro t link received maker row due pushed word heard
    rw [told_frame link received maker] at heard
    rw [row]
    rcases stays with other | soon | silent | pushes
    · rw [update_row_stored other]
      exact (inv word heard).imp_right due
    · exact .inr (due soon)
    · rw [silent] at heard
      cases heard
    · exact .inr (pushed pushes)
  split at next
  · rename_i refused
    cases next
    refine settles rfl rfl rfl rfl (due_erase there rfl) fun pushes => ?_
    simp [pushesAfter, refused, Except.isOk, Except.toBool] at pushes
  · rename_i accepted
    cases next
    refine settles rfl rfl rfl rfl (due_set there nofun) fun pushes => ?_
    obtain ⟨inside, _⟩ := List.getElem?_eq_some_iff.mp there
    refine ⟨_, List.mem_set inside _, ?_⟩
    simp only [pushesAfter, accepted, Except.isOk, Except.toBool, Bool.true_and] at pushes
    exact pushes

theorem push_keeps {s : LimitsLink} {i : Nat} {limits : Limits} {limitsVersion : Nat}
    (there : s.calls[i]? = some (.push limits limitsVersion)) (ok : ¬ Misleads s (.push i)) :
    Inv { pushDown s (.limits limits limitsVersion) with calls := s.calls.eraseIdx i } := by
  simp only [Misleads, there, not_and, not_not] at ok
  intro word heard
  rw [show told { pushDown s (.limits limits limitsVersion) with calls := s.calls.eraseIdx i } =
      told (pushDown s (.limits limits limitsVersion)) from told_frame rfl rfl rfl,
    push_told] at heard
  split at heard
  · rename_i up
    cases heard
    by_cases current : (limits, limitsVersion) = stored s.row
    · exact .inl current
    · exact .inr (ok current (Option.isSome_iff_ne_none.mp up))
  · cases heard

theorem send_state_keeps {s : LimitsLink} {queue : List ToStrategy} (inv : Inv s)
    (up : s.link = some ⟨false, queue⟩) (positions : List Position)
    (ok : ¬ Misleads s (.sendState positions)) :
    let first := initialState (some s.registry.toRegistered) positions
    Inv { s with link := some ⟨true, first :: queue⟩ } := by
  intro first word heard
  have before : told s = last setsWord none queue := by
    rw [told, up]
    rfl
  simp only [Misleads, not_and, not_not] at ok
  rcases told_first (rfl : (setsWord first).isSome = true) s.received with
    ⟨silent, sent⟩ | ⟨_, forgotten⟩
  · have now : word = stored s.registry :=
      (Option.some.inj (Option.some.inj ((congrArg some heard).symm.trans sent)))
    rw [now]
    by_cases current : stored s.registry = stored s.row
    · exact .inl current
    · refine .inr (ok current ?_)
      rcases last_cases queue with ⟨_, same⟩ | ⟨spoken, _⟩
      · exact before.trans (same none)
      · exact absurd silent spoken
  · refine inv word ?_
    rw [told, up]
    exact forgotten.symm.trans heard

theorem tell_keeps {s : LimitsLink} {msg : ToStrategy} (inv : Inv s)
    (silent : msg.setsLimits = none) : Inv (pushDown s msg) := by
  intro word heard
  rw [push_told] at heard
  split at heard
  · rw [silent, Option.none_or] at heard
    exact inv word heard
  · cases heard

theorem receive_keeps {s : LimitsLink} {msg : ToStrategy} {queue : List ToStrategy} (inv : Inv s)
    (up : s.link = some ⟨true, msg :: queue⟩) :
    Inv { s with link := some ⟨true, queue⟩, received := s.received ++ [msg] } := by
  intro word heard
  refine inv word ?_
  rw [told, up]
  exact (told_received msg queue s.received).symm.trans heard

theorem apply_keeps {s : LimitsLink} {msg : ToStrategy} {received : List ToStrategy} (inv : Inv s)
    (waiting : s.received = msg :: received) (now : Nat) :
    Inv { s with received, maker := s.maker.onControl msg now } := by
  intro word heard
  refine inv word ?_
  rw [told, waiting, ← told_applied, sets_word]
  rw [told, on_control_enforced] at heard
  cases sets : msg.setsLimits <;> rw [sets] at heard <;> exact heard

theorem step_keeps {s t : LimitsLink} {a : Action} (inv : Inv s) (ok : ¬ Misleads s a)
    (next : step s a = some t) : Inv t := by
  cases a with
  | update | reload =>
    cases next
    refine quiet_keeps inv rfl rfl rfl rfl fun ⟨call, member, owes⟩ => ⟨call, ?_, owes⟩
    exact List.mem_append_left _ member
  | store i =>
    have taken := next
    simp only [step] at taken
    split at taken
    · rename_i p there
      exact store_keeps inv there ok next
    · cases taken
  | fail i =>
    simp only [step] at next
    split at next
    · rename_i p there
      cases next
      exact quiet_keeps inv rfl rfl rfl rfl (due_erase there rfl)
    · cases next
  | select i =>
    simp only [step] at next
    split at next
    · rename_i pushes there
      cases next
      exact quiet_keeps inv rfl rfl rfl rfl (due_set there id)
    · cases next
  | reloadFails i =>
    simp only [step] at next
    split at next
    · rename_i pushes there
      cases next
      exact quiet_keeps inv rfl rfl rfl rfl (reloaded_due there rfl)
    · cases next
  | publish i =>
    simp only [step] at next
    split at next
    · rename_i read pushes there
      cases next
      refine quiet_keeps inv rfl rfl rfl rfl fun due => ?_
      exact reloaded_due (s := { s with registry := read }) there rfl due
    · cases next
  | look i =>
    simp only [step] at next
    split at next
    · rename_i there
      cases next
      exact quiet_keeps inv rfl rfl rfl rfl (due_set there fun _ => rfl)
    · cases next
  | push i =>
    simp only [step] at next
    split at next
    · rename_i limits limitsVersion there
      cases next
      exact push_keeps there ok
    · cases next
  | connect =>
    simp only [step] at next
    split at next
    · cases next
      intro word heard
      cases heard
    · cases next
  | sendState positions =>
    simp only [step] at next
    split at next
    · rename_i queue up
      cases next
      exact send_state_keeps inv up positions ok
    · cases next
  | tell msg =>
    simp only [step] at next
    split at next
    · rename_i silent
      cases next
      exact tell_keeps inv silent
    · cases next
  | drop =>
    cases next
    intro word heard
    cases heard
  | receive =>
    simp only [step] at next
    split at next
    · rename_i msg queue up
      cases next
      exact receive_keeps inv up
    · cases next
  | apply now =>
    simp only [step] at next
    split at next
    · rename_i msg received waiting
      cases next
      exact apply_keeps inv waiting now
    · cases next

theorem inv_converged {s : LimitsLink} (inv : Inv s) : Converged s := by
  rintro ⟨returned, up, applied⟩
  obtain ⟨⟨sent, queue⟩, linked, ends⟩ := Option.map_eq_some_iff.mp up
  cases ends
  have heard : s.maker.risk.enforced ∈ told s := by
    rw [told, linked, applied]
    rfl
  rcases inv s.maker.risk.enforced heard with same | ⟨call, member, _⟩
  · exact same
  · rw [returned] at member
    cases member

/-- As long as no step misleads the strategy, its book has converged on the
    stored limits whenever everything has settled. -/
theorem limits_converge (row : StrategyRow) (maker : MarketMaker) (as : List Action)
    (steps : Along step (fun s a => ¬ Misleads s a) (.start row maker) as) :
    Throughout step Converged (.start row maker) as :=
  throughout_mono (fun _ => inv_converged)
    (throughout_along (fun _ _ _ inv ok next => step_keeps inv ok next) (start_inv row maker) steps)

/-- An admin call begins while another is under way, a reload fails, or an update stores
    limits that it will not push. -/
def Disturbs (s : LimitsLink) : Action → Prop
  | .update _ | .reload => s.calls ≠ []
  | .reloadFails _ => True
  | .store i => ∃ p, s.calls[i]? = some (.store p) ∧ changesLimits p = true ∧
      pushesAfter s.row p = false
  | _ => False

/-- The one call under way goes by what is stored, and the registry holds it but for what
    that call will put there. -/
def Current (s : LimitsLink) : Prop :=
  match s.calls with
  | [] | [.store _] | [.look] => stored s.registry = stored s.row
  | [.select pushes] => pushes = false → stored s.registry = stored s.row
  | [.publish read pushes] =>
    stored read = stored s.row ∧ (pushes = false → stored s.registry = stored s.row)
  | [.push limits limitsVersion] =>
    (limits, limitsVersion) = stored s.row ∧ stored s.registry = stored s.row
  | _ => False

theorem one_call {s : LimitsLink} {i : Nat} {call : Call} (current : Current s)
    (there : s.calls[i]? = some call) : s.calls = [call] ∧ i = 0 := by
  unfold Current at current
  match calls : s.calls with
  | [] => simp [calls] at there
  | [only] =>
    rw [calls] at there
    cases i with
    | zero => exact ⟨by simpa using there, rfl⟩
    | succ i => simp at there
  | _ :: _ :: _ => simp [calls] at current

theorem current_link {s t : LimitsLink} (calls : t.calls = s.calls) (row : t.row = s.row)
    (registry : t.registry = s.registry) (current : Current s) : Current t := by
  unfold Current at current ⊢
  rw [calls, row, registry]
  exact current

theorem reloaded_current {s : LimitsLink} {pushes : Bool} {call : Call} (one : s.calls = [call])
    (same : stored s.registry = stored s.row) : Current (reloaded s 0 pushes) := by
  cases pushes <;> simpa [Current, reloaded, one] using same

theorem store_current {s t : LimitsLink} {i : Nat} (current : Current s)
    (calm : ¬ Disturbs s (.store i)) (next : step s (.store i) = some t) : Current t := by
  simp only [step] at next
  split at next
  · rename_i p there
    obtain ⟨one, rfl⟩ := one_call current there
    have same : stored s.registry = stored s.row := by
      unfold Current at current
      rwa [one] at current
    have unpushed : pushesAfter s.row p = false → stored s.registry = stored (updateRow s.row p) := by
      intro silent
      rw [update_row_stored, same]
      by_contra changes
      exact calm ⟨p, there, by simpa using changes, silent⟩
    split at next
    · rename_i refused
      cases next
      have silent : pushesAfter s.row p = false := by
        simp [pushesAfter, refused, Except.isOk, Except.toBool]
      simpa [Current, one] using unpushed silent
    · rename_i accepted
      cases next
      simp only [Current, one, List.set_cons_zero]
      intro silent
      refine unpushed ?_
      simpa [pushesAfter, accepted, Except.isOk, Except.toBool] using silent
  · cases next

theorem step_current {s t : LimitsLink} {a : Action} (current : Current s) (calm : ¬ Disturbs s a)
    (next : step s a = some t) : Current t := by
  cases a with
  | update | reload =>
    cases next
    have none_ : s.calls = [] := Classical.not_not.mp calm
    unfold Current at current
    rw [none_] at current
    simpa [Current, none_] using current
  | store i => exact store_current current calm next
  | fail i =>
    simp only [step] at next
    split at next
    · rename_i p there
      cases next
      obtain ⟨one, rfl⟩ := one_call current there
      unfold Current at current
      rw [one] at current
      simpa [Current, one] using current
    · cases next
  | select i =>
    simp only [step] at next
    split at next
    · rename_i pushes there
      cases next
      obtain ⟨one, rfl⟩ := one_call current there
      unfold Current at current
      rw [one] at current
      simpa [Current, one] using current
    · cases next
  | reloadFails i => exact absurd trivial calm
  | publish i =>
    simp only [step] at next
    split at next
    · rename_i read pushes there
      cases next
      obtain ⟨one, rfl⟩ := one_call current there
      unfold Current at current
      rw [one] at current
      exact reloaded_current (s := { s with registry := read }) one current.1
    · cases next
  | look i =>
    simp only [step] at next
    split at next
    · rename_i there
      cases next
      obtain ⟨one, rfl⟩ := one_call current there
      unfold Current at current
      rw [one] at current
      simpa [Current, one] using current
    · cases next
  | push i =>
    simp only [step] at next
    split at next
    · rename_i limits limitsVersion there
      cases next
      obtain ⟨one, rfl⟩ := one_call current there
      unfold Current at current
      rw [one] at current
      simpa [Current, one, pushDown] using current.2
    · cases next
  | connect | sendState | tell | receive | apply =>
    simp only [step] at next
    split at next <;> cases next
    exact current_link rfl rfl rfl current
  | drop =>
    cases next
    exact current_link rfl rfl rfl current

/-- What a call looks up and pushes after its own reload is what is stored. -/
theorem current_informs {s : LimitsLink} {a : Action} (current : Current s)
    (calm : ¬ Disturbs s a) : ¬ Misleads s a := by
  intro misleads
  cases a with
  | store i =>
    simp only [Misleads] at misleads
    split at misleads
    · rename_i p there
      exact calm ⟨p, there, misleads.1, misleads.2.1⟩
    · exact misleads
  | push i =>
    simp only [Misleads] at misleads
    split at misleads
    · rename_i limits limitsVersion there
      obtain ⟨one, rfl⟩ := one_call current there
      unfold Current at current
      rw [one] at current
      exact misleads.1 current.1
    · exact misleads
  | sendState positions =>
    obtain ⟨stale, -, done⟩ := misleads
    unfold Current at current
    split at current
    · exact stale current
    · exact stale current
    · exact stale current
    · rename_i pushes one
      cases pushes with
      | true => exact done ⟨_, by rw [one]; exact List.mem_singleton_self _, rfl⟩
      | false => exact stale (current rfl)
    · rename_i read pushes one
      cases pushes with
      | true => exact done ⟨_, by rw [one]; exact List.mem_singleton_self _, rfl⟩
      | false => exact stale (current.2 rfl)
    · exact stale current.2
    · exact current
  | _ => exact misleads

/-- As long as admin calls come one after another, none of their reloads fails and none
    stores limits it does not push, the book converges on what is stored. -/
theorem serial_updates_converge (row : StrategyRow) (maker : MarketMaker) (as : List Action)
    (steps : Along step (fun s a => ¬ Disturbs s a) (.start row maker) as) :
    Throughout step Converged (.start row maker) as := by
  have both : Throughout step (fun s => Inv s ∧ Current s) (.start row maker) as := by
    refine throughout_along ?_ ⟨start_inv row maker, rfl⟩ steps
    intro s a t held calm next
    exact ⟨step_keeps held.1 (current_informs held.2 calm) next, step_current held.2 calm next⟩
  exact throughout_mono (fun _ held => inv_converged held.1) both

def mm1 : StrategyRow :=
  ⟨⟨⟨"mm1", "u1", .active, ⟨some 2, none, none, none⟩, some 5⟩, .colocated, true, 5, some 20, 1⟩,
    "MM1", "OMS"⟩

def idleMaker : MarketMaker := ⟨false, .new 5000 0, .new noLimits 0, [], []⟩

def unchanged : UpdateStrategy :=
  ⟨none, none, none, none, none, none, none, none, none, none⟩

def maxOrder (qty : ℚ) : UpdateStrategy := { unchanged with maxOrderQuantity := some qty }

def connected : List Action := [.connect, .sendState [], .receive, .apply 1]

def delivery : List Action := [.receive, .apply 2]

/-- Two updates one inside the other; the outer one's push is on its way when the
    link drops, and the next connection is sent what the registry holds. -/
def nestedUpdates : List Action :=
  connected ++ [.update (maxOrder 3), .store 0, .update (maxOrder 4), .store 1, .select 1,
    .publish 1, .look 1, .push 1] ++ delivery ++ [.select 0, .publish 0, .look 0, .push 0, .drop] ++
    connected

theorem nested_updates_converge :
    (∃ t ∈ run step (.start mm1 idleMaker) nestedUpdates, Settled t ∧ t.row.limitsVersion = 3) ∧
      Throughout step Converged (.start mm1 idleMaker) nestedUpdates :=
  ⟨by decide +kernel, limits_converge mm1 idleMaker nestedUpdates (by decide +kernel)⟩

/-- The first update's reload has read the row before the second stores, and
    replaces the registry after the second has pushed. -/
def staleReload : List Action :=
  connected ++ [.update (maxOrder 3), .store 0, .select 0, .update (maxOrder 4), .store 1,
    .select 1, .publish 1, .look 1, .push 1, .publish 0, .look 0, .push 0] ++ delivery ++ delivery

/-- The first update has looked its limits up before the second, and pushes after it. -/
def latePush : List Action :=
  connected ++ [.update (maxOrder 3), .store 0, .select 0, .publish 0, .look 0,
    .update (maxOrder 4), .store 1, .select 1, .publish 1, .look 1, .push 1, .push 0] ++
    delivery ++ delivery

def refusedUpdate : List Action :=
  connected ++ [.update { maxOrder 3 with targetCompId := some "" }, .store 0]

/-- The book is left with a version the database has replaced, under overlapping
    updates and after one that is refused too late. -/
theorem limits_diverge :
    ¬ Throughout step Converged (.start mm1 idleMaker) staleReload ∧
      ¬ Throughout step Converged (.start mm1 idleMaker) latePush ∧
      ¬ Throughout step Converged (.start mm1 idleMaker) refusedUpdate := by
  refine ⟨not_throughout ?_, not_throughout ?_, not_throughout ?_⟩
  · decide +kernel
  · decide +kernel
  · decide +kernel

end OmsLimitsLink
