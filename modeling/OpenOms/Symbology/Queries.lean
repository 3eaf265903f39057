import Mathlib.Logic.Basic

/-!
Identifying an instrument: the mapping job a query makes, and what is made of the
candidates a job is answered with.
-/
namespace OmsSymbology

inductive SymbologyError where
  | network (message : String)
  | http (status : Nat)
  | decode (message : String)
  | noIdentifier
  | rateLimited
  deriving DecidableEq, Repr

def SymbologyError.toString : SymbologyError → String
  | .network message => s!"network error: {message}"
  | .http status => s!"openfigi returned HTTP {status}"
  | .decode message => s!"failed to decode openfigi response: {message}"
  | .noIdentifier => "query carries no usable identifier"
  | .rateLimited => "rate limited by openfigi"

structure InstrumentIdentity where
  figi : String
  compositeFigi : Option String
  shareClassFigi : Option String
  ticker : Option String
  name : Option String
  exchCode : Option String
  securityType : Option String
  securityType2 : Option String
  marketSector : Option String
  deriving DecidableEq, Repr

inductive Resolution where
  | resolved (identity : InstrumentIdentity)
  | ambiguous (candidates : List InstrumentIdentity)
  | notFound
  deriving DecidableEq, Repr

structure InstrumentQuery where
  figi : Option String
  isin : Option String
  cusip : Option String
  ticker : Option String
  mic : Option String
  exchCode : Option String
  currency : Option String
  marketSecDes : Option String
  deriving DecidableEq, Repr

def InstrumentQuery.default : InstrumentQuery := ⟨none, none, none, none, none, none, none, none⟩

structure MappingJob where
  idType : String
  idValue : String
  exchCode : Option String
  micCode : Option String
  currency : Option String
  marketSecDes : Option String
  deriving DecidableEq, Repr

inductive MappingResult where
  | data (candidates : List InstrumentIdentity)
  | warning (message : String)
  | error (message : String)
  deriving DecidableEq, Repr

/-- How to collapse several candidates. -/
inductive DisambiguationPolicy where
  | preferRequested
  | strict
  deriving DecidableEq, Repr

def InstrumentQuery.identifier (q : InstrumentQuery) : Option (String × String) :=
  (q.figi.map ("ID_BB_GLOBAL", ·)).or <| (q.isin.map ("ID_ISIN", ·)).or <|
    (q.cusip.map ("ID_CUSIP", ·)).or <| q.ticker.map ("TICKER", ·)

/-- The exchange code is preferred; sending both can over-constrain. -/
def buildJob (q : InstrumentQuery) : Except SymbologyError MappingJob :=
  match q.identifier with
  | none => .error .noIdentifier
  | some (idType, idValue) =>
    .ok {
      idType
      idValue
      exchCode := q.exchCode
      micCode := if q.exchCode.isSome then none else q.mic
      currency := q.currency
      marketSecDes := q.marketSecDes }

def preferred (candidates : List InstrumentIdentity) (q : InstrumentQuery) :
    Option InstrumentIdentity :=
  (q.exchCode.bind fun exch => candidates.find? (·.exchCode = some exch)).or
    (candidates.find? fun c => c.compositeFigi = some c.figi)

def disambiguate (candidates : List InstrumentIdentity) (q : InstrumentQuery)
    (policy : DisambiguationPolicy) : Resolution :=
  match candidates with
  | [] => .notFound
  | [only] => .resolved only
  | _ =>
    match policy with
    | .preferRequested =>
      match preferred candidates q with
      | some found => .resolved found
      | none => .ambiguous candidates
    | .strict => .ambiguous candidates

def interpret (result : MappingResult) (q : InstrumentQuery) (policy : DisambiguationPolicy) :
    Resolution :=
  match result with
  | .data candidates => disambiguate candidates q policy
  | .warning _ | .error _ => .notFound

def InstrumentQuery.Bare (q : InstrumentQuery) : Prop :=
  q.figi = none ∧ q.isin = none ∧ q.cusip = none ∧ q.ticker = none

theorem identifier_none {q : InstrumentQuery} : q.identifier = none ↔ q.Bare := by
  simp [InstrumentQuery.identifier, InstrumentQuery.Bare]

theorem build_job_fails {q : InstrumentQuery} {e : SymbologyError} :
    buildJob q = .error e ↔ q.Bare ∧ e = .noIdentifier := by
  rw [← identifier_none]
  unfold buildJob
  cases q.identifier with
  | none => simpa using eq_comm
  | some strongest => simp

theorem disambiguate_resolved {candidates : List InstrumentIdentity} {q : InstrumentQuery}
    {policy : DisambiguationPolicy} {identity : InstrumentIdentity}
    (resolved : disambiguate candidates q policy = .resolved identity) : identity ∈ candidates := by
  unfold disambiguate at resolved
  split at resolved
  · cases resolved
  · cases resolved
    exact List.mem_singleton_self _
  · split at resolved
    · split at resolved
      · rename_i found prefers
        cases resolved
        unfold preferred at prefers
        rcases Option.or_eq_some_iff.mp prefers with requested | ⟨-, composite⟩
        · obtain ⟨exch, -, listed⟩ := Option.bind_eq_some_iff.mp requested
          exact List.mem_of_find?_eq_some listed
        · exact List.mem_of_find?_eq_some composite
      · cases resolved
    · cases resolved

end OmsSymbology
