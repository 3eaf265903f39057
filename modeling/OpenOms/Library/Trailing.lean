import Mathlib.Data.List.Basic

/-!
The recent end of a growing log. Entries are added at the back in the order of
their times and dropped from the front once their age is past the horizon; what
is kept then answers for the whole log. Nothing here knows what the entries are.
-/
namespace Trailing
variable {E : Type}

/-- Which ages are over. An entry over once stays over. -/
structure Horizon where
  past : Nat → Bool
  grows : ∀ a b, a ≤ b → past a = true → past b = true

def Horizon.from (limit : Nat) : Horizon where
  past := fun age => decide (limit ≤ age)
  grows := by
    intro a b order old
    simp only [decide_eq_true_eq] at old ⊢
    omega

def Horizon.beyond (limit : Nat) : Horizon where
  past := fun age => decide (limit < age)
  grows := by
    intro a b order old
    simp only [decide_eq_true_eq] at old ⊢
    omega

/-- Old entries leave from the front, up to the first that is not old. -/
def pruned (h : Horizon) (time : E → Nat) (now : Nat) (log : List E) : List E :=
  log.dropWhile fun e => h.past (now - time e)

def live (h : Horizon) (time : E → Nat) (now : Nat) (log : List E) : List E :=
  log.filter fun e => !h.past (now - time e)

def InOrder (time : E → Nat) (log : List E) : Prop := log.Pairwise fun a b => time a ≤ time b

def UpTo (time : E → Nat) (log : List E) (now : Nat) : Prop := ∀ e ∈ log, time e ≤ now

variable {h : Horizon} {time : E → Nat}

theorem live_append (now : Nat) (log more : List E) :
    live h time now (log ++ more) = live h time now log ++ live h time now more :=
  List.filter_append ..

theorem live_mem {now : Nat} {log : List E} {e : E} (member : e ∈ live h time now log) :
    e ∈ log ∧ h.past (now - time e) = false := by
  simpa [live] using List.mem_filter.mp member

theorem live_sublist (now : Nat) (log : List E) : (live h time now log).Sublist log :=
  List.filter_sublist

theorem pruned_eq_live {log : List E} (sorted : InOrder time log) (now : Nat) :
    pruned h time now log = live h time now log := by
  induction log with
  | nil => rfl
  | cons e rest ih =>
    obtain ⟨first, tail⟩ := List.pairwise_cons.mp sorted
    unfold pruned live at ih ⊢
    cases old : h.past (now - time e) with
    | true => simpa [old] using ih tail
    | false =>
      have young : ∀ later ∈ rest, h.past (now - time later) = false := by
        intro later member
        have order := first later member
        cases aged : h.past (now - time later) with
        | false => rfl
        | true =>
          have back := h.grows _ (now - time e) (by omega) aged
          rw [old] at back
          cases back
      have all : rest.filter (fun later => !h.past (now - time later)) = rest := by
        rw [List.filter_eq_self]
        intro later member
        rw [young later member]
        rfl
      simp [old, all]

theorem live_live {log : List E} {now later : Nat} (forward : now ≤ later) :
    live h time later (live h time now log) = live h time later log := by
  unfold live
  rw [List.filter_filter]
  refine List.filter_congr fun e _ => ?_
  cases aged : h.past (later - time e) with
  | true => rfl
  | false =>
    cases old : h.past (now - time e) with
    | false => rfl
    | true =>
      have still := h.grows _ _ (Nat.sub_le_sub_right forward (time e)) old
      rw [aged] at still
      cases still

theorem up_to_snoc {log : List E} {e : E} {now : Nat} :
    UpTo time (log ++ [e]) now ↔ UpTo time log now ∧ time e ≤ now := by
  simp [UpTo, or_imp, forall_and]

theorem in_order_snoc {log : List E} {e : E} (sorted : InOrder time log)
    (last : UpTo time log (time e)) : InOrder time (log ++ [e]) := by
  refine List.pairwise_append.mpr ⟨sorted, List.pairwise_singleton _ _, ?_⟩
  intro earlier member new there
  rw [List.mem_singleton.mp there]
  exact last earlier member

structure Keeps (h : Horizon) (time : E → Nat) (since : Nat) (log window : List E) : Prop where
  sorted : InOrder time window
  before : UpTo time window since
  same : ∀ now, since ≤ now → live h time now window = live h time now log

theorem keeps_nil (since : Nat) : Keeps h time since [] [] where
  sorted := List.Pairwise.nil
  before := by
    intro e member
    cases member
  same := fun _ _ => rfl

theorem keeps_later {since now : Nat} {log window : List E} (keeps : Keeps h time since log window)
    (forward : since ≤ now) : Keeps h time now log window where
  sorted := keeps.sorted
  before := fun e member => Nat.le_trans (keeps.before e member) forward
  same := fun later order => keeps.same later (Nat.le_trans forward order)

theorem keeps_pruned {since : Nat} {log window : List E} (keeps : Keeps h time since log window) :
    Keeps h time since log (pruned h time since window) := by
  rw [pruned_eq_live keeps.sorted]
  constructor
  · exact keeps.sorted.sublist (live_sublist since window)
  · exact fun e member => keeps.before e (live_mem member).1
  · intro now forward
    rw [live_live forward]
    exact keeps.same now forward

theorem keeps_snoc {log window : List E} {e : E} (keeps : Keeps h time (time e) log window) :
    Keeps h time (time e) (log ++ [e]) (window ++ [e]) where
  sorted := in_order_snoc keeps.sorted keeps.before
  before := up_to_snoc.mpr ⟨keeps.before, Nat.le_refl _⟩
  same := by
    intro now forward
    rw [live_append, live_append, keeps.same now forward]

theorem pruned_live {since : Nat} {log window : List E} (keeps : Keeps h time since log window) :
    pruned h time since window = live h time since log := by
  rw [pruned_eq_live keeps.sorted, keeps.same since (Nat.le_refl _)]

theorem live_narrow {wide : Horizon} (within : ∀ age, wide.past age = true → h.past age = true)
    (now : Nat) (log : List E) : live h time now (live wide time now log) = live h time now log := by
  unfold live
  rw [List.filter_filter]
  refine List.filter_congr fun e _ => ?_
  cases aged : wide.past (now - time e) with
  | false => simp
  | true => simp [within _ aged]

theorem live_length_mono {log : List E} {now later : Nat} (forward : now ≤ later) :
    (live h time later log).length ≤ (live h time now log).length := by
  rw [← live_live forward]
  exact (live_sublist later _).length_le

end Trailing
