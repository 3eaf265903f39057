import OpenOms.Library.Memo
import OpenOms.Symbology.Queries

/-!
Identifying one instrument, or many in one call, with a cache in front of the provider.
-/
namespace OmsSymbology
open Memo

abbrev FigiProvider := List MappingJob → Except SymbologyError (List MappingResult)

class IdentityCache (C : Type) where
  get : C → InstrumentQuery → Option Resolution
  put : C → InstrumentQuery → Resolution → C

structure NoCache

instance : IdentityCache NoCache where
  get _ _ := none
  put cache _ _ := cache

structure InMemoryCache where
  map : InstrumentQuery → Option Resolution

instance : IdentityCache InMemoryCache where
  get cache q := cache.map q
  put cache q res := ⟨Function.update cache.map q (some res)⟩

structure Identifier (C : Type) where
  provider : FigiProvider
  cache : C
  policy : DisambiguationPolicy

variable {C : Type} [IdentityCache C]
open IdentityCache

def Identifier.identify (self : Identifier C) (q : InstrumentQuery) :
    Except SymbologyError Resolution × Identifier C :=
  match get self.cache q with
  | some hit => (.ok hit, self)
  | none =>
    match buildJob q with
    | .error e => (.error e, self)
    | .ok job =>
      match self.provider [job] with
      | .error e => (.error e, self)
      | .ok results =>
        let res :=
          match results with
          | r :: _ => interpret r q self.policy
          | [] => .notFound
        (.ok res, { self with cache := put self.cache q res })

/-- The answers so far by place, the jobs to ask and the places they are for. -/
structure Batch where
  out : List (Option Resolution)
  jobs : List MappingJob
  jobIdx : List Nat
  deriving DecidableEq, Repr

def sortQuery (cache : C) (s : Batch) : InstrumentQuery × Nat → Batch
  | (q, i) =>
    match get cache q with
    | some hit => { s with out := s.out.set i (some hit) }
    | none =>
      match buildJob q with
      | .ok job => { s with jobs := s.jobs ++ [job], jobIdx := s.jobIdx ++ [i] }
      | .error _ => { s with out := s.out.set i (some .notFound) }

def takeResult (queries : List InstrumentQuery) (jobIdx : List Nat) (policy : DisambiguationPolicy)
    (at_ : List (Option Resolution) × C) : MappingResult × Nat →
      Option (List (Option Resolution) × C)
  | (r, k) => do
    let i ← jobIdx[k]?
    let q ← queries[i]?
    let res := interpret r q policy
    return (at_.1.set i (some res), put at_.2 q res)

def Identifier.identifyBatch (self : Identifier C) (queries : List InstrumentQuery) :
    Option (Except SymbologyError (List Resolution) × Identifier C) :=
  let s := queries.zipIdx.foldl (sortQuery self.cache) ⟨List.replicate queries.length none, [], []⟩
  if s.jobs.isEmpty then some (.ok (s.out.map (·.getD .notFound)), self)
  else
    match self.provider s.jobs with
    | .error e => some (.error e, self)
    | .ok results => do
      let (out, cache) ←
        results.zipIdx.foldlM (takeResult queries s.jobIdx self.policy) (s.out, self.cache)
      return (.ok (out.map (·.getD .notFound)), { self with cache })

def Identifier.inTurn (self : Identifier C) (queries : List InstrumentQuery) : Identifier C :=
  queries.foldl (fun self q => (self.identify q).2) self

abbrev Answers (provider : FigiProvider) (answer : MappingJob → MappingResult) : Prop :=
  ∀ jobs, provider jobs = .ok (jobs.map answer)

def Independent (provider : FigiProvider) : Prop := ∃ answer, Answers provider answer

class LawfulCache (C : Type) [IdentityCache C] where
  keeps : InstrumentQuery → Resolution → Option Resolution
  get_put : ∀ (cache : C) q res, get (put cache q res) = Function.update (get cache) q (keeps q res)

instance : LawfulCache InMemoryCache where
  keeps _ res := some res
  get_put _ _ _ := rfl

instance : LawfulCache NoCache where
  keeps _ _ := none
  get_put _ q _ := (Function.update_eq_self q _).symm

def lookUp (answer : MappingJob → MappingResult) (policy : DisambiguationPolicy)
    (q : InstrumentQuery) : Except SymbologyError Resolution :=
  (buildJob q).map fun job => interpret (answer job) q policy

theorem identify_answers {self : Identifier C} {answer : MappingJob → MappingResult}
    (answers : Answers self.provider answer) (q : InstrumentQuery) :
    self.identify q =
      match get self.cache q, lookUp answer self.policy q with
      | some hit, _ => (.ok hit, self)
      | none, .ok res => (.ok res, { self with cache := put self.cache q res })
      | none, .error e => (.error e, self) := by
  unfold Identifier.identify lookUp
  cases get self.cache q with
  | some hit => rfl
  | none =>
    cases buildJob q with
    | error e => rfl
    | ok job =>
      dsimp only
      rw [answers]
      rfl

def kept (C : Type) [IdentityCache C] [LawfulCache C] (answer : MappingJob → MappingResult)
    (policy : DisambiguationPolicy) (q : InstrumentQuery) : Option Resolution :=
  (lookUp answer policy q).toOption.bind (LawfulCache.keeps (C := C) q)

theorem identify_keeps [LawfulCache C] {self : Identifier C} {answer : MappingJob → MappingResult}
    (answers : Answers self.provider answer) (q : InstrumentQuery) :
    (self.identify q).2.provider = self.provider ∧ (self.identify q).2.policy = self.policy ∧
      get (self.identify q).2.cache = ask (kept C answer self.policy) (get self.cache) q := by
  rw [identify_answers answers, ask]
  cases hit : get self.cache q with
  | some res => exact ⟨rfl, rfl, rfl⟩
  | none =>
    cases looked : lookUp answer self.policy q with
    | error e =>
      have nothing : kept C answer self.policy q = none := by simp [kept, looked, Except.toOption]
      refine ⟨rfl, rfl, ?_⟩
      dsimp only
      rw [nothing, ← hit, Function.update_eq_self]
    | ok res =>
      refine ⟨rfl, rfl, ?_⟩
      dsimp only
      rw [LawfulCache.get_put, kept, looked]
      rfl

theorem in_turn_keeps [LawfulCache C] {self : Identifier C} {answer : MappingJob → MappingResult}
    (answers : Answers self.provider answer) (queries : List InstrumentQuery) :
    get (self.inTurn queries).cache = filled (kept C answer self.policy) (get self.cache) queries := by
  rw [← ask_in_turn]
  induction queries generalizing self with
  | nil => rfl
  | cons q queries ih =>
    obtain ⟨provider, policy, cached⟩ := identify_keeps answers q
    have rest := @ih (self.identify q).2 (by rwa [provider])
    rw [policy, cached] at rest
    exact rest

end OmsSymbology
