import OpenOms.Symbology.Identifier

/-!
One call for many queries against a call for each: the answers scattered back to their
places, and what the cache has afterwards.
-/
namespace OmsSymbology
open Memo IdentityCache
variable {C : Type} [IdentityCache C]

/-- The batch has what `identify` returns; where a query without any identifier makes
    `identify` fail, it has no match. -/
def Matches (self : Identifier C) (q : InstrumentQuery) (res : Resolution) : Prop :=
  (self.identify q).1 = .ok res ∨
    q.Bare ∧ (self.identify q).1 = .error .noIdentifier ∧ res = .notFound

/-- One call for all queries answers and caches what a call for each does. -/
def BatchAgrees (self : Identifier C) (queries : List InstrumentQuery) : Prop :=
  ∃ (out : List Resolution) (after : C),
    self.identifyBatch queries = some (.ok out, { self with cache := after }) ∧
    out.length = queries.length ∧
    (∀ (i : Nat) q, queries[i]? = some q → ∃ res, out[i]? = some res ∧ Matches self q res) ∧
    ∀ q, get after q = get (self.inTurn queries).cache q

structure Ask where
  query : InstrumentQuery
  place : Nat
  job : MappingJob

def wanted (cache : C) (q : InstrumentQuery) : Option MappingJob :=
  match get cache q with
  | some _ => none
  | none => (buildJob q).toOption

def known (cache : C) (q : InstrumentQuery) : Option Resolution :=
  match get cache q with
  | some hit => some hit
  | none => if (buildJob q).isOk then none else some .notFound

def asks (cache : C) (queries : List InstrumentQuery) (start : Nat) : List Ask :=
  (queries.zipIdx start).filterMap fun (q, i) => (wanted cache q).map (⟨q, i, ·⟩)

theorem sort_queries (cache : C) (done queries : List InstrumentQuery) (jobs : List MappingJob)
    (jobIdx : List Nat) :
    (queries.zipIdx done.length).foldl (sortQuery cache)
        ⟨done.map (known cache) ++ List.replicate queries.length none, jobs, jobIdx⟩ =
      ⟨(done ++ queries).map (known cache),
        jobs ++ (asks cache queries done.length).map Ask.job,
        jobIdx ++ (asks cache queries done.length).map Ask.place⟩ := by
  induction queries generalizing done jobs jobIdx with
  | nil => simp [asks]
  | cons q queries ih =>
    have next := ih (done ++ [q])
    simp only [List.length_append, List.length_singleton, List.append_assoc, List.map_append,
      List.map_cons, List.map_nil, List.singleton_append] at next
    have place : ∀ res, (done.map (known cache) ++ none :: List.replicate queries.length none).set
        done.length res = done.map (known cache) ++ res :: List.replicate queries.length none := by
      intro res
      rw [List.set_append_right _ _ (by simp)]
      simp
    rw [List.zipIdx_cons, List.foldl_cons, List.length_cons, List.replicate_succ]
    cases hit : get cache q with
    | some res =>
      have is : known cache q = some res := by simp [known, hit]
      have none_ : wanted cache q = none := by simp [wanted, hit]
      simp only [sortQuery, hit, place]
      rw [← is, next]
      simp [asks, none_]
    | none =>
      cases makes : buildJob q with
      | error e =>
        have is : known cache q = some .notFound := by simp [known, hit, makes, Except.isOk, Except.toBool]
        have none_ : wanted cache q = none := by simp [wanted, hit, makes, Except.toOption]
        simp only [sortQuery, hit, makes, place]
        rw [← is, next]
        simp [asks, none_]
      | ok job =>
        have is : known cache q = none := by simp [known, hit, makes, Except.isOk, Except.toBool]
        have asked : wanted cache q = some job := by simp [wanted, hit, makes, Except.toOption]
        rw [is] at next
        simp only [sortQuery, hit, makes]
        rw [next]
        simp [asks, asked, is]

theorem mem_asks {cache : C} {queries : List InstrumentQuery} {start : Nat} {a : Ask} :
    a ∈ asks cache queries start ↔
      start ≤ a.place ∧ queries[a.place - start]? = some a.query ∧ wanted cache a.query = some a.job := by
  unfold asks
  simp only [List.mem_filterMap, Prod.exists, List.mk_mem_zipIdx_iff_le_and_getElem?_sub]
  constructor
  · rintro ⟨q, i, ⟨from_, there⟩, made⟩
    obtain ⟨job, asked, rfl⟩ := Option.map_eq_some_iff.mp made
    exact ⟨from_, there, asked⟩
  · rintro ⟨from_, there, asked⟩
    exact ⟨a.query, a.place, ⟨from_, there⟩, by rw [asked]; rfl⟩

theorem ask_place {cache : C} {queries : List InstrumentQuery} {a : Ask}
    (member : a ∈ asks cache queries 0) : queries[a.place]? = some a.query :=
  (mem_asks.mp member).2.1

theorem wanted_asked {cache : C} {queries : List InstrumentQuery} {q : InstrumentQuery} {i : Nat}
    {job : MappingJob} (there : queries[i]? = some q) (wants : wanted cache q = some job) :
    ⟨q, i, job⟩ ∈ asks cache queries 0 :=
  mem_asks.mpr ⟨Nat.zero_le i, there, wants⟩

def Ask.resolution (answer : MappingJob → MappingResult) (policy : DisambiguationPolicy) (a : Ask) :
    Resolution :=
  interpret (answer a.job) a.query policy

theorem ask_looks_up {cache : C} {queries : List InstrumentQuery} {a : Ask}
    (answer : MappingJob → MappingResult) (policy : DisambiguationPolicy)
    (member : a ∈ asks cache queries 0) :
    get cache a.query = none ∧ lookUp answer policy a.query = .ok (a.resolution answer policy) := by
  obtain ⟨-, -, asked⟩ := mem_asks.mp member
  unfold wanted at asked
  split at asked
  · cases asked
  · rename_i missing
    refine ⟨missing, ?_⟩
    cases makes : buildJob a.query with
    | error e => simp [makes, Except.toOption] at asked
    | ok job =>
      rw [makes] at asked
      cases asked
      rw [lookUp, makes]
      rfl

theorem take_results {queries : List InstrumentQuery} (answer : MappingJob → MappingResult)
    (policy : DisambiguationPolicy) (before rest : List Ask)
    (here : ∀ a ∈ rest, queries[a.place]? = some a.query) (out : List (Option Resolution))
    (cache : C) :
    ((rest.map fun a => answer a.job).zipIdx before.length).foldlM
        (takeResult queries ((before ++ rest).map Ask.place) policy) (out, cache) =
      some (rest.foldl (fun out a => out.set a.place (some (a.resolution answer policy))) out,
        rest.foldl (fun cache a => put cache a.query (a.resolution answer policy)) cache) := by
  induction rest generalizing before out cache with
  | nil => rfl
  | cons a rest ih =>
    have next := ih (before ++ [a]) (fun b member => here b (List.mem_cons_of_mem a member))
    rw [List.length_append, List.length_singleton, List.append_assoc, List.singleton_append] at next
    have place : ((before ++ a :: rest).map Ask.place)[before.length]? = some a.place := by simp
    rw [List.map_cons, List.zipIdx_cons, List.foldlM_cons]
    simp only [takeResult, place, here a List.mem_cons_self, Option.bind_eq_bind, Option.bind_some,
      Option.pure_def, List.foldl_cons]
    exact next _ _

def answered (answer : MappingJob → MappingResult) (policy : DisambiguationPolicy) (cache : C)
    (q : InstrumentQuery) : Resolution :=
  (get cache q).getD ((lookUp answer policy q).toOption.getD .notFound)

theorem known_unless_wanted {cache : C} {q : InstrumentQuery} (answer : MappingJob → MappingResult)
    (policy : DisambiguationPolicy) (none_ : wanted cache q = none) :
    known cache q = some (answered answer policy cache q) := by
  unfold wanted at none_
  cases hit : get cache q with
  | some res => simp [known, answered, hit]
  | none =>
    rw [hit] at none_
    cases makes : buildJob q with
    | ok job => simp [makes, Except.toOption] at none_
    | error e =>
      simp [known, answered, lookUp, hit, makes, Except.isOk, Except.toBool, Except.map,
        Except.toOption]

theorem scatter_answers (answer : MappingJob → MappingResult) (policy : DisambiguationPolicy)
    (cache : C) (queries : List InstrumentQuery) :
    ((asks cache queries 0).foldl
        (fun out a => out.set a.place (some (a.resolution answer policy)))
        (queries.map (known cache))).map (·.getD .notFound) =
      queries.map (answered answer policy cache) := by
  let found : Nat → Option Resolution := fun i =>
    queries[i]?.bind fun q => (lookUp answer policy q).toOption
  have byPlace : (asks cache queries 0).foldl
      (fun out a => out.set a.place (some (a.resolution answer policy)))
        (queries.map (known cache)) =
      ((asks cache queries 0).map Ask.place).foldl (fun out i => out.set i (found i))
        (queries.map (known cache)) := by
    rw [List.foldl_map]
    refine List.foldl_ext _ _ _ fun out a member => ?_
    have there := ask_place member
    simp only [found, there, Option.bind_some, (ask_looks_up answer policy member).2, Except.toOption]
  refine List.ext_getElem? fun i => ?_
  rw [byPlace, List.getElem?_map, scattered_at, List.length_map, List.getElem?_map, List.getElem?_map]
  cases at_ : queries[i]? with
  | none =>
    have beyond : ¬ i < queries.length := by
      rw [Nat.not_lt]
      exact List.getElem?_eq_none_iff.mp at_
    simp [beyond]
  | some q =>
    have within : i < queries.length := (List.getElem?_eq_some_iff.mp at_).1
    by_cases asked : i ∈ (asks cache queries 0).map Ask.place
    · obtain ⟨a, member, rfl⟩ := List.mem_map.mp asked
      have there := ask_place member
      cases at_.symm.trans there
      obtain ⟨missing, -⟩ := ask_looks_up answer policy member
      rw [if_pos ⟨asked, within⟩]
      simp [found, at_, answered, missing]
    · have none_ : wanted cache q = none := by
        cases wants : wanted cache q with
        | none => rfl
        | some job => exact absurd (List.mem_map_of_mem (wanted_asked at_ wants)) asked
      rw [if_neg fun both => asked both.1]
      simp [known_unless_wanted answer policy none_]

def remembered (answer : MappingJob → MappingResult) (policy : DisambiguationPolicy) (cache : C)
    (queries : List InstrumentQuery) : C :=
  (asks cache queries 0).foldl (fun cache a => put cache a.query (a.resolution answer policy)) cache

theorem takes_iff {queries : List InstrumentQuery} {jobIdx : List Nat}
    (inside : ∀ i ∈ jobIdx, i < queries.length) (policy : DisambiguationPolicy)
    (results : List MappingResult) (k : Nat) (room : k ≤ jobIdx.length)
    (at_ : List (Option Resolution) × C) :
    (results.zipIdx k).foldlM (takeResult queries jobIdx policy) at_ = none ↔
      jobIdx.length < k + results.length := by
  induction results generalizing k at_ with
  | nil => simpa using room
  | cons r results ih =>
    rw [List.zipIdx_cons, List.foldlM_cons, List.length_cons]
    by_cases some_ : k < jobIdx.length
    · obtain ⟨q, there⟩ : ∃ q, queries[jobIdx[k]]? = some q :=
        ⟨_, List.getElem?_eq_getElem (inside _ (List.getElem_mem some_))⟩
      simp only [takeResult, List.getElem?_eq_getElem some_, there, Option.bind_eq_bind,
        Option.bind_some, Option.pure_def]
      rw [ih (k + 1) some_]
      omega
    · have gone : jobIdx[k]? = none := List.getElem?_eq_none (Nat.not_lt.mp some_)
      simp only [takeResult, gone, Option.bind_eq_bind, Option.bind_none, true_iff]
      omega

theorem identify_batch_panics_iff (self : Identifier C) (queries : List InstrumentQuery) :
    self.identifyBatch queries = none ↔
      asks self.cache queries 0 ≠ [] ∧ ∃ results,
        self.provider ((asks self.cache queries 0).map Ask.job) = .ok results ∧
          (asks self.cache queries 0).length < results.length := by
  have sorted := sort_queries self.cache [] queries [] []
  simp only [List.length_nil, List.map_nil, List.nil_append] at sorted
  have inside : ∀ i ∈ (asks self.cache queries 0).map Ask.place, i < queries.length := by
    intro i member
    obtain ⟨a, there, rfl⟩ := List.mem_map.mp member
    exact (List.getElem?_eq_some_iff.mp (ask_place there)).1
  unfold Identifier.identifyBatch
  rw [sorted]
  dsimp only
  split
  · rename_i nobody
    have none_ : asks self.cache queries 0 = [] := by simpa using nobody
    simp [none_]
  · rename_i somebody
    have some_ : asks self.cache queries 0 ≠ [] := by simpa using somebody
    cases self.provider ((asks self.cache queries 0).map Ask.job) with
    | error e => simp
    | ok results =>
      have takes := takes_iff inside self.policy results 0 (Nat.zero_le _)
        (queries.map (known self.cache), self.cache)
      rw [List.length_map, Nat.zero_add] at takes
      simp only [ne_eq, some_, not_false_eq_true, Except.ok.injEq, exists_eq_left', true_and,
        ← takes]
      cases results.zipIdx.foldlM (takeResult queries _ self.policy) (_, self.cache) <;> simp

theorem identify_batch_answers {self : Identifier C} {answer : MappingJob → MappingResult}
    (answers : Answers self.provider answer) (queries : List InstrumentQuery) :
    self.identifyBatch queries =
      some (.ok (queries.map (answered answer self.policy self.cache)),
        { self with cache := remembered answer self.policy self.cache queries }) := by
  have sorted := sort_queries self.cache [] queries [] []
  simp only [List.length_nil, List.map_nil, List.nil_append] at sorted
  have scattered := scatter_answers answer self.policy self.cache queries
  unfold Identifier.identifyBatch remembered
  rw [sorted]
  dsimp only
  split
  · rename_i nobody
    have none_ : asks self.cache queries 0 = [] := by simpa using nobody
    rw [none_] at scattered ⊢
    exact congrArg (fun out => some (Except.ok out, self)) scattered
  · rw [answers]
    have here : ∀ a ∈ asks self.cache queries 0, queries[a.place]? = some a.query :=
      fun a member => ask_place member
    have taken := take_results answer self.policy [] _ here (queries.map (known self.cache)) self.cache
    simp only [List.map_map, Function.comp_def, List.length_nil, List.nil_append] at taken ⊢
    rw [taken]
    simp only [Option.bind_eq_bind, Option.bind_some, Option.pure_def, scattered]

theorem remembered_keeps [LawfulCache C] (answer : MappingJob → MappingResult)
    (policy : DisambiguationPolicy) (cache : C) (queries : List InstrumentQuery) :
    get (remembered answer policy cache queries) =
      filled (kept C answer policy) (get cache) queries := by
  have puts : ∀ (as : List Ask) (c : C),
      (∀ a ∈ as, lookUp answer policy a.query = .ok (a.resolution answer policy)) →
      get (as.foldl (fun c a => put c a.query (a.resolution answer policy)) c) =
        (as.map Ask.query).foldl (fun m q => Function.update m q (kept C answer policy q)) (get c) := by
    intro as
    induction as with
    | nil => exact fun _ _ => rfl
    | cons a as ih =>
      intro c looked
      have value : kept C answer policy a.query =
          LawfulCache.keeps (C := C) a.query (a.resolution answer policy) := by
        rw [kept, looked a List.mem_cons_self]
        rfl
      rw [List.foldl_cons, ih _ fun b member => looked b (List.mem_cons_of_mem a member),
        LawfulCache.get_put, List.map_cons, List.foldl_cons, value]
  rw [remembered, puts _ _ fun a member => (ask_looks_up answer policy member).2]
  refine ask_at_once ?_ ?_
  · intro q member
    obtain ⟨a, there, rfl⟩ := List.mem_map.mp member
    exact ⟨List.mem_of_getElem? (ask_place there), (ask_looks_up answer policy there).1⟩
  · intro q member missing
    obtain ⟨i, at_⟩ := List.mem_iff_getElem?.mp member
    cases makes : buildJob q with
    | ok job =>
      have wants : wanted cache q = some job := by simp [wanted, missing, makes, Except.toOption]
      exact Or.inl (List.mem_map_of_mem (wanted_asked at_ wants))
    | error e => exact Or.inr (by simp [kept, lookUp, makes, Except.map, Except.toOption])

theorem answered_matches {self : Identifier C} {answer : MappingJob → MappingResult}
    (answers : Answers self.provider answer) (q : InstrumentQuery) :
    Matches self q (answered answer self.policy self.cache q) := by
  unfold Matches
  rw [identify_answers answers]
  unfold answered
  cases hit : get self.cache q with
  | some res => exact Or.inl rfl
  | none =>
    cases looked : lookUp answer self.policy q with
    | ok res => exact Or.inl rfl
    | error e =>
      have fails : buildJob q = .error e := by
        cases makes : buildJob q with
        | ok job => simp [lookUp, makes, Except.map] at looked
        | error e' => simpa [lookUp, makes, Except.map] using looked
      obtain ⟨bare, rfl⟩ := build_job_fails.mp fails
      exact Or.inr ⟨bare, rfl, rfl⟩

theorem batch_agrees [LawfulCache C] (self : Identifier C) (independent : Independent self.provider)
    (queries : List InstrumentQuery) : BatchAgrees self queries := by
  obtain ⟨answer, answers⟩ := independent
  refine ⟨_, _, identify_batch_answers answers queries, List.length_map _, ?_, ?_⟩
  · intro i q there
    exact ⟨_, by rw [List.getElem?_map, there]; rfl, answered_matches answers q⟩
  · intro q
    rw [remembered_keeps, in_turn_keeps answers]

/-- With either cache, whatever it has. -/
theorem identify_batch_agrees (provider : FigiProvider) (independent : Independent provider)
    (policy : DisambiguationPolicy) (queries : List InstrumentQuery) :
    (∀ cache : InMemoryCache, BatchAgrees ⟨provider, cache, policy⟩ queries) ∧
      ∀ cache : NoCache, BatchAgrees ⟨provider, cache, policy⟩ queries :=
  ⟨fun _ => batch_agrees _ independent queries, fun _ => batch_agrees _ independent queries⟩

def apple (figi exch : String) : InstrumentIdentity where
  figi := figi
  compositeFigi := some "BBG000B9XRY4"
  shareClassFigi := none
  ticker := some "AAPL"
  name := some "APPLE INC"
  exchCode := some exch
  securityType := none
  securityType2 := none
  marketSector := some "Equity"

def listings (job : MappingJob) : MappingResult :=
  if job.idValue = "AAPL" then .data [apple "BBG000B9XRY4" "US", apple "BBG000KTDTF5" "LN"]
  else .warning "No identifier found."

def ticker (t : String) (exch : Option String) : InstrumentQuery :=
  { InstrumentQuery.default with ticker := some t, exchCode := exch }

def byIsin (isin : String) : InstrumentQuery := { InstrumentQuery.default with isin := some isin }

def seeded : InMemoryCache :=
  ⟨fun q => if q = byIsin "US0378331005" then some (.resolved (apple "BBG000B9XRY4" "US")) else none⟩

/-- A query twice, one without an identifier, one in the cache, one nobody knows. -/
def mixed : List InstrumentQuery :=
  [ticker "AAPL" (some "LN"), .default, byIsin "US0378331005", ticker "AAPL" (some "LN"),
    ticker "ZZZZ" none]

def stub : FigiProvider := fun jobs => .ok (jobs.map listings)

theorem mixed_batch_agrees :
    BatchAgrees (⟨stub, seeded, .preferRequested⟩ : Identifier InMemoryCache) mixed :=
  (identify_batch_agrees stub ⟨listings, fun _ => rfl⟩ .preferRequested mixed).1 seeded

example :
    ((⟨stub, seeded, .preferRequested⟩ : Identifier InMemoryCache).identifyBatch mixed).map Prod.fst =
    some (.ok [.resolved (apple "BBG000KTDTF5" "LN"), .notFound,
      .resolved (apple "BBG000B9XRY4" "US"), .resolved (apple "BBG000KTDTF5" "LN"), .notFound]) := by
  decide +kernel

end OmsSymbology
