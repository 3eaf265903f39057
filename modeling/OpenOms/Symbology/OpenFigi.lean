import OpenOms.Library.Upsert
import OpenOms.Symbology.Batches

/-!
The OpenFIGI client behind the identifier: requests in chunks, each tried again while
the service says it is asked too often. Waiting and the JSON forms are left out.
-/
namespace OmsSymbology

def MAX_RETRIES : Nat := 3

inductive Response where
  | unsent (message : String)
  | answered (status : Nat) (body : Except String (List MappingResult))
  deriving DecidableEq, Repr

/-- The service is told the jobs, and how often it has been told them before. -/
structure OpenFigiClient where
  apiKey : Option String
  post : List MappingJob → Nat → Response

def OpenFigiClient.maxBatch (self : OpenFigiClient) : Nat := if self.apiKey.isSome then 100 else 10

def readBody (status : Nat) (body : Except String (List MappingResult)) :
    Except SymbologyError (List MappingResult) :=
  if status < 200 || 300 ≤ status then .error (.http status)
  else
    match body with
    | .error message => .error (.decode message)
    | .ok results => .ok results

def tryFrom (post : Nat → Response) : List Nat → Except SymbologyError (List MappingResult)
  | [] => .error .rateLimited
  | attempt :: later =>
    match post attempt with
    | .unsent message => .error (.network message)
    | .answered 429 _ => if attempt = MAX_RETRIES then .error .rateLimited else tryFrom post later
    | .answered status body => readBody status body

def OpenFigiClient.mapChunk (self : OpenFigiClient) (jobs : List MappingJob) :
    Except SymbologyError (List MappingResult) :=
  tryFrom (self.post jobs) (List.range (MAX_RETRIES + 1))

def OpenFigiClient.map (self : OpenFigiClient) : FigiProvider := fun jobs =>
  (Upsert.chunks self.maxBatch jobs).foldlM (fun out chunk => do
    return out ++ (← self.mapChunk chunk)) []

def Serves (self : OpenFigiClient) (answer : MappingJob → MappingResult) : Prop :=
  ∀ jobs, ∃ n ≤ MAX_RETRIES, (∀ before < n, ∃ body, self.post jobs before = .answered 429 body) ∧
    self.post jobs n = .answered 200 (.ok (jobs.map answer))

theorem try_from_serves {post : Nat → Response} {results : List MappingResult} {n : Nat}
    (refused : ∀ before < n, ∃ body, post before = .answered 429 body)
    (served : post n = .answered 200 (.ok results)) :
    ∀ k ≤ n, n ≤ MAX_RETRIES → tryFrom post (List.range' k (MAX_RETRIES + 1 - k)) = .ok results := by
  intro k within last
  obtain ⟨left, rfl⟩ := Nat.exists_eq_add_of_le within
  induction left generalizing k with
  | zero =>
    have some_ : MAX_RETRIES + 1 - k = MAX_RETRIES - k + 1 := by omega
    rw [some_, List.range'_succ, tryFrom]
    rw [Nat.add_zero] at served
    rw [served]
    rfl
  | succ left ih =>
    have some_ : MAX_RETRIES + 1 - k = MAX_RETRIES + 1 - (k + 1) + 1 := by omega
    obtain ⟨body, again⟩ := refused k (by omega)
    have more : k ≠ MAX_RETRIES := by omega
    have same : k + 1 + left = k + (left + 1) := by omega
    rw [some_, List.range'_succ, tryFrom, again, if_neg more]
    refine ih (k + 1) ?_ ?_ (by omega) (by omega)
    · rwa [same]
    · rwa [same]

theorem map_chunk_serves {self : OpenFigiClient} {answer : MappingJob → MappingResult}
    (serves : Serves self answer) (jobs : List MappingJob) :
    self.mapChunk jobs = .ok (jobs.map answer) := by
  obtain ⟨n, last, refused, served⟩ := serves jobs
  rw [OpenFigiClient.mapChunk, List.range_eq_range']
  exact try_from_serves refused served 0 (Nat.zero_le n) last

theorem open_figi_answers {self : OpenFigiClient} {answer : MappingJob → MappingResult}
    (serves : Serves self answer) : Answers self.map answer := by
  intro jobs
  have some_ : 0 < self.maxBatch := by
    unfold OpenFigiClient.maxBatch
    split <;> decide
  have along : ∀ (chunks : List (List MappingJob)) (out : List MappingResult),
      chunks.foldlM (fun out chunk => do return out ++ (← self.mapChunk chunk)) out =
        (.ok (out ++ chunks.flatten.map answer) : Except SymbologyError (List MappingResult)) := by
    intro chunks
    induction chunks with
    | nil =>
      intro out
      rw [List.flatten_nil, List.map_nil, List.append_nil]
      rfl
    | cons chunk chunks ih =>
      intro out
      have rest := ih (out ++ chunk.map answer)
      rw [List.append_assoc] at rest
      rw [List.foldlM_cons, map_chunk_serves serves, List.flatten_cons, List.map_append]
      exact rest
  rw [OpenFigiClient.map, along, Upsert.flatten_chunks some_, List.nil_append]

end OmsSymbology
