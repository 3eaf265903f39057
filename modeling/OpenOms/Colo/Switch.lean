import OpenOms.Colo.DeadMan
import Mathlib.Data.List.Induction

/-!
The dead man's switch over all the strategy has heard: when it lets the strategy
trade.
-/
namespace OmsSwitch
open OmsColo

structure Received where
  time : Nat
  msg : ToStrategy
  deriving DecidableEq, Repr

def receive (dead : DeadMan) (received : Received) : DeadMan :=
  (dead.heard received.time).apply received.msg

def after (dead : DeadMan) (received : List Received) : DeadMan := received.foldl receive dead

def setsTimeout : ToStrategy → Option Nat
  | .state _ _ _ _ deadManSecs => some (deadManSecs * 1000)
  | _ => none

def allowed (initial : Nat) (received : List Received) : Nat :=
  (received.filterMap fun r => setsTimeout r.msg).getLast?.getD initial

/-- An active state or a resume has come, and no kill or inactive state after it. -/
def Cleared (received : List Received) : Prop :=
  ∃ before r later, received = before ++ r :: later ∧ r.msg.tells = some true ∧
    ∀ other ∈ later, other.msg.tells ≠ some false

def HeardWithin (initial : Nat) (received : List Received) (now : Nat) : Prop :=
  ∃ r ∈ received, r.time ≤ now ∧ now ≤ r.time + allowed initial received

@[simp] theorem after_snoc (dead : DeadMan) (received : List Received) (r : Received) :
    after dead (received ++ [r]) = receive (after dead received) r := by
  simp [after]

theorem allowed_snoc (initial : Nat) (received : List Received) (r : Received) :
    allowed initial (received ++ [r]) = (setsTimeout r.msg).getD (allowed initial received) := by
  cases sets : setsTimeout r.msg <;> simp [allowed, sets]

@[simp] theorem receive_timeout (dead : DeadMan) (r : Received) :
    (receive dead r).timeout = (setsTimeout r.msg).getD dead.timeout := by
  cases msg : r.msg <;> simp [receive, DeadMan.apply, DeadMan.heard, msg, setsTimeout]

@[simp] theorem receive_heard (dead : DeadMan) (r : Received) :
    (receive dead r).lastHeard = r.time := by
  cases msg : r.msg <;> simp [receive, DeadMan.apply, DeadMan.heard, msg]

theorem cleared_snoc (received : List Received) (r : Received) :
    Cleared (received ++ [r]) ↔
      r.msg.tells = some true ∨ (r.msg.tells ≠ some false ∧ Cleared received) := by
  constructor
  · rintro ⟨before, clearing, later, split, tells, kept⟩
    rcases List.eq_nil_or_concat later with rfl | ⟨rest, last, rfl⟩
    · left
      have same := (List.append_inj' split rfl).2
      cases same
      exact tells
    · right
      have same : received = before ++ clearing :: rest ∧ [r] = [last] := by
        refine List.append_inj' ?_ rfl
        simpa using split
      obtain ⟨rfl, lastIs⟩ := same
      cases lastIs
      refine ⟨kept r (by simp), before, clearing, rest, rfl, tells, ?_⟩
      exact fun other member => kept other (by simp [member])
  · rintro (tells | ⟨kept, before, clearing, later, rfl, tells, rest⟩)
    · exact ⟨received, r, [], rfl, tells, by simp⟩
    · refine ⟨before, clearing, later ++ [r], by simp, tells, ?_⟩
      intro other member
      rcases List.mem_append.mp member with old | new
      · exact rest other old
      · cases List.mem_singleton.mp new
        exact kept

theorem after_timeout (dead : DeadMan) (received : List Received) :
    (after dead received).timeout = allowed dead.timeout received := by
  induction received using List.reverseRecOn with
  | nil => rfl
  | append_singleton received r ih => rw [after_snoc, receive_timeout, allowed_snoc, ih]

theorem after_cleared (timeout start : Nat) (received : List Received) :
    (after (.new timeout start) received).cleared = true ↔ Cleared received := by
  induction received using List.reverseRecOn with
  | nil => simp [after, DeadMan.new, DeadMan.cleared, Cleared]
  | append_singleton received r ih =>
    rw [after_snoc, cleared_snoc, ← ih, receive, apply_cleared, heard_cleared]
    cases tells : r.msg.tells with
    | none => simp
    | some active => cases active <;> simp

/-- With the clock going forward the last message is the one that counts. -/
theorem heard_within_iff {initial now : Nat} {received : List Received} {r : Received}
    (ordered : ((received ++ [r]).map Received.time ++ [now]).Pairwise (· ≤ ·)) :
    HeardWithin initial (received ++ [r]) now ↔
      now - r.time ≤ allowed initial (received ++ [r]) := by
  obtain ⟨times, _, past⟩ := List.pairwise_append.mp ordered
  have latest : ∀ other ∈ received ++ [r], other.time ≤ r.time := by
    intro other member
    rcases List.mem_append.mp member with old | new
    · rw [List.map_append] at times
      refine (List.pairwise_append.mp times).2.2 _ (List.mem_map_of_mem old) _ ?_
      simp
    · cases List.mem_singleton.mp new
      exact le_rfl
  have before : r.time ≤ now := past _ (List.mem_map_of_mem (by simp)) _ (by simp)
  constructor
  · rintro ⟨other, member, _, within⟩
    have late := latest other member
    omega
  · intro within
    exact ⟨r, by simp, before, by omega⟩

/-- The strategy may trade exactly when it is cleared and has heard the OMS. -/
theorem may_trade_iff (timeout start now : Nat) (received : List Received)
    (ordered : (start :: received.map Received.time ++ [now]).Pairwise (· ≤ ·)) :
    (after (.new timeout start) received).mayTrade now = true ↔
      Cleared received ∧ HeardWithin timeout received now := by
  have trades : (after (.new timeout start) received).mayTrade now = true ↔
      (after (.new timeout start) received).cleared = true ∧
        now - (after (.new timeout start) received).lastHeard ≤ allowed timeout received := by
    rw [← show (DeadMan.new timeout start).timeout = timeout from rfl, ← after_timeout]
    simp [DeadMan.mayTrade, DeadMan.cleared, DeadMan.new]
  rw [trades, after_cleared]
  refine and_congr_right fun cleared => ?_
  rcases List.eq_nil_or_concat received with rfl | ⟨before, r, rfl⟩
  · obtain ⟨_, _, _, split, _⟩ := cleared
    simp at split
  · rw [List.concat_eq_append] at ordered ⊢
    rw [heard_within_iff (List.Pairwise.of_cons ordered), after_snoc, receive_heard]

/-- A state, a kill, a heartbeat and the resume: trading again within five seconds. -/
def resumed : List Received :=
  [⟨100, .state true ⟨none, none, none, none, none, none⟩ 1 [] 5⟩, ⟨900, .kill⟩,
    ⟨1900, .heartbeat⟩, ⟨2500, .resume⟩]

theorem resumed_trades : Cleared resumed ∧ HeardWithin 1000 resumed 7500 :=
  (may_trade_iff 1000 0 7500 resumed (by decide)).mp (by decide)

end OmsSwitch
