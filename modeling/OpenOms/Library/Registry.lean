import Mathlib.Data.List.Induction
import Mathlib.Logic.Function.Basic

/-!
A registry rebuilt by a list of registrations, the last one of a key counting. A
registration carries the key's instance over from the registry before, or makes a
fresh one, which a follower of the key then follows. Instances are numbered.
-/
namespace Registry
variable {K : Type}

inductive Source where
  | carried
  | fresh
  deriving DecidableEq, Repr

structure Pass (K : Type) where
  registered : K → Option Nat
  following : K → Option Nat
  next : Nat

def Pass.start (following : K → Option Nat) (next : Nat) : Pass K :=
  ⟨fun _ => none, following, next⟩

section
variable [DecidableEq K]

def register (current : K → Option Nat) (p : Pass K) : K × Source → Pass K
  | (k, .carried) => { p with registered := Function.update p.registered k (current k) }
  | (k, .fresh) =>
    { registered := Function.update p.registered k (some p.next)
      following := Function.update p.following k (some p.next)
      next := p.next + 1 }

def rebuild (current following : K → Option Nat) (next : Nat) (regs : List (K × Source)) : Pass K :=
  regs.foldl (register current) (.start following next)

end

def Overridden (regs : List (K × Source)) (k : K) : Prop :=
  ∃ before after, regs = before ++ (k, .carried) :: after ∧ (k, .fresh) ∈ before ∧
    (k, .fresh) ∉ after

theorem not_overridden_fresh (regs : List (K × Source)) (k : K) :
    ¬ Overridden (regs ++ [(k, .fresh)]) k := by
  rintro ⟨before, after, split, _, none⟩
  rcases List.eq_nil_or_concat after with rfl | ⟨after', x, rfl⟩
  · have last := (List.append_inj' split rfl).2
    simp at last
  · rw [List.concat_eq_append, ← List.cons_append, ← List.append_assoc] at split
    have last := (List.append_inj' split rfl).2
    simp only [List.cons.injEq, and_true] at last
    exact none (by simp [last])

theorem overridden_carried {regs : List (K × Source)} {k : K} (made : (k, .fresh) ∈ regs) :
    Overridden (regs ++ [(k, .carried)]) k :=
  ⟨regs, [], rfl, made, List.not_mem_nil⟩

theorem overridden_other {regs : List (K × Source)} {k k' : K} (other : k' ≠ k) (src : Source) :
    Overridden (regs ++ [(k', src)]) k ↔ Overridden regs k := by
  constructor
  · rintro ⟨before, after, split, made, none⟩
    rcases List.eq_nil_or_concat after with rfl | ⟨after', x, rfl⟩
    · have last := (List.append_inj' split rfl).2
      simp only [List.cons.injEq, Prod.mk.injEq, and_true] at last
      exact absurd last.1 other
    · rw [List.concat_eq_append, ← List.cons_append, ← List.append_assoc] at split
      refine ⟨before, after', (List.append_inj' split rfl).1, made, fun later => none ?_⟩
      simp [later]
  · rintro ⟨before, after, rfl, made, none⟩
    refine ⟨before, after ++ [(k', src)], by simp, made, ?_⟩
    simp [none, Ne.symm other]

inductive KeyState (current following : K → Option Nat) (next : Nat) (regs : List (K × Source))
    (p : Pass K) (k : K) : Prop where
  | untouched : (∀ src, (k, src) ∉ regs) → p.registered k = none →
    p.following k = following k → KeyState current following next regs p k
  | carried : (k, .carried) ∈ regs → (k, .fresh) ∉ regs → p.registered k = current k →
    p.following k = following k → KeyState current following next regs p k
  | live (a : Nat) : (k, .fresh) ∈ regs → ¬ Overridden regs k → next ≤ a →
    p.registered k = some a → p.following k = some a → KeyState current following next regs p k
  | stale (a : Nat) : Overridden regs k → p.registered k = current k → next ≤ a →
    p.following k = some a → KeyState current following next regs p k

variable [DecidableEq K] {current following : K → Option Nat} {next : Nat}

theorem rebuild_concat (regs : List (K × Source)) (reg : K × Source) :
    rebuild current following next (regs ++ [reg]) =
      register current (rebuild current following next regs) reg := by
  simp [rebuild]

theorem next_grows (regs : List (K × Source)) :
    next ≤ (rebuild current following next regs).next := by
  induction regs using List.reverseRecOn with
  | nil => exact Nat.le_refl _
  | append_singleton regs reg ih =>
    rw [rebuild_concat]
    obtain ⟨k, src⟩ := reg
    cases src with
    | carried => exact ih
    | fresh => exact Nat.le_succ_of_le ih

theorem registered_issued (issued : ∀ k, ∀ a ∈ current k, a < next) (regs : List (K × Source)) :
    ∀ k, ∀ a ∈ (rebuild current following next regs).registered k,
      a < (rebuild current following next regs).next := by
  induction regs using List.reverseRecOn with
  | nil => exact fun k a registered => nomatch registered
  | append_singleton regs reg ih =>
    rw [rebuild_concat]
    obtain ⟨k', src⟩ := reg
    intro k a registered
    cases src with
    | carried =>
      simp only [register, Function.update_apply] at registered ⊢
      split at registered
      · exact Nat.lt_of_lt_of_le (issued k' a registered) (next_grows regs)
      · exact ih k a registered
    | fresh =>
      simp only [register, Function.update_apply] at registered ⊢
      split at registered
      · cases registered
        exact Nat.lt_succ_self _
      · exact Nat.lt_succ_of_lt (ih k a registered)

theorem register_other {p : Pass K} {k k' : K} (other : k ≠ k') (src : Source) :
    (register current p (k', src)).registered k = p.registered k ∧
      (register current p (k', src)).following k = p.following k := by
  cases src with
  | carried => simp [register, other]
  | fresh => simp [register, other]

theorem key_state (regs : List (K × Source)) (k : K) :
    KeyState current following next regs (rebuild current following next regs) k := by
  induction regs using List.reverseRecOn with
  | nil => exact .untouched (fun _ => List.not_mem_nil) rfl rfl
  | append_singleton regs reg ih =>
    rw [rebuild_concat]
    obtain ⟨k', src⟩ := reg
    by_cases own : k = k'
    · subst own
      cases src with
      | carried =>
        have registered : (register current (rebuild current following next regs)
            (k, .carried)).registered k = current k := Function.update_self _ _ _
        cases ih with
        | untouched none _ kept =>
          exact .carried (by simp) (by simp [none]) registered kept
        | carried _ none _ kept => exact .carried (by simp) (by simp [none]) registered kept
        | live a made _ new _ follows =>
          exact .stale a (overridden_carried made) registered new follows
        | stale a overridden _ new follows =>
          obtain ⟨before, after, split, made, _⟩ := overridden
          exact .stale a (overridden_carried (by simp [split, made])) registered new follows
      | fresh =>
        exact .live _ (by simp) (not_overridden_fresh regs k) (next_grows regs)
          (Function.update_self _ _ _) (Function.update_self _ _ _)
    · obtain ⟨sameReg, sameFollow⟩ :=
        register_other (p := rebuild current following next regs) own src
      have among : ∀ src', (k, src') ∈ regs ++ [(k', src)] ↔ (k, src') ∈ regs := by
        intro src'
        simp [own]
      have overridden := @overridden_other _ regs _ _ (Ne.symm own) src
      cases ih with
      | untouched none registered kept =>
        exact .untouched (fun src' => (among src').not.mpr (none src'))
          (sameReg.trans registered) (sameFollow.trans kept)
      | carried some none registered kept =>
        exact .carried ((among _).mpr some) ((among _).not.mpr none)
          (sameReg.trans registered) (sameFollow.trans kept)
      | live a made live new registered follows =>
        exact .live a ((among _).mpr made) (overridden.not.mpr live) new
          (sameReg.trans registered) (sameFollow.trans follows)
      | stale a over_ registered new follows =>
        exact .stale a (overridden.mpr over_) (sameReg.trans registered) new
          (sameFollow.trans follows)

end Registry
