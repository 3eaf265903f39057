import Mathlib.Data.List.Basic

/-!
The connectors: one per broker, each described by its manifest. `fix` says whether
the build has the FIX feature.
-/
namespace OmsConnectors

inductive Environment where
  | paper
  | live
  deriving DecidableEq, Repr

def Environment.name : Environment → String
  | .paper => "PAPER"
  | .live => "LIVE"

def Environment.parse : Option String → Option Environment
  | some "PAPER" => some .paper
  | some "LIVE" => some .live
  | _ => none

inductive Transport where
  | rest
  | fix
  deriving DecidableEq, Repr

structure Manifest where
  code : String
  credentialKind : String
  venueName : String
  liveOnly : Bool
  execStream : Bool
  sessionBound : Bool
  deriving DecidableEq, Repr

structure Connected where
  execStream : Bool
  dailyStats : Bool
  deriving DecidableEq, Repr

structure Connector where
  manifest : Manifest
  connected : Transport → Connected

def alpaca : Connector where
  manifest := ⟨"ALPACA", "Alpaca", "Alpaca", false, true, false⟩
  connected _ := ⟨true, true⟩

/-- Over FIX the session that routes orders also delivers fills. -/
def binance : Connector where
  manifest := ⟨"BINANCE", "BinanceFix", "Binance", false, true, true⟩
  connected
    | .rest => ⟨true, true⟩
    | .fix => ⟨false, false⟩

def bybit : Connector where
  manifest := ⟨"BYBIT", "Bybit", "Bybit", false, true, false⟩
  connected _ := ⟨true, true⟩

def coinbase : Connector where
  manifest := ⟨"COINBASE", "Coinbase", "Coinbase", true, true, false⟩
  connected _ := ⟨true, true⟩

def okx : Connector where
  manifest := ⟨"OKX", "Okx", "OKX", false, true, false⟩
  connected _ := ⟨true, true⟩

def ibkr : Connector where
  manifest := ⟨"IBKR", "IbkrFix", "Interactive Brokers", false, false, true⟩
  connected _ := ⟨false, false⟩

def all (fix : Bool) : List Connector :=
  if fix then [alpaca, binance, bybit, coinbase, okx, ibkr]
  else [alpaca, binance, bybit, coinbase, okx]

def byCredentialKind (fix : Bool) (kind : String) : Option Connector :=
  (all fix).find? (·.manifest.credentialKind = kind)

def execStreamCode (code : String) (env : Environment) : String :=
  code.toLower ++ "-" ++ env.name.toLower ++ ":exec"

def execKeys (fix : Bool) : List (String × Environment) :=
  ((all fix).filter (·.manifest.execStream)).flatMap fun c =>
    [(c.manifest.code, .paper), (c.manifest.code, .live)]

theorem find_listed {fix : Bool} {kind : String} {c : Connector}
    (found : byCredentialKind fix kind = some c) : c ∈ all fix :=
  List.mem_of_find?_eq_some found

theorem unbound_streams {fix : Bool} {c : Connector} (listed : c ∈ all fix)
    (unbound : c.manifest.sessionBound = false) :
    c.manifest.execStream = true ∧ ∀ transport, (c.connected transport).execStream = true := by
  have each : ∀ c' ∈ [alpaca, binance, bybit, coinbase, okx, ibkr],
      c'.manifest.sessionBound = false → c'.manifest.execStream = true ∧
        ∀ transport, (c'.connected transport).execStream = true := by
    simp [alpaca, binance, bybit, coinbase, okx, ibkr]
  refine each c ?_ unbound
  cases fix with
  | true => exact listed
  | false =>
    simp only [all, Bool.false_eq_true, if_false] at listed
    simp only [List.mem_cons, List.not_mem_nil, or_false] at listed ⊢
    tauto

theorem mem_exec_keys {fix : Bool} {c : Connector} (listed : c ∈ all fix)
    (streams : c.manifest.execStream = true) (env : Environment) :
    (c.manifest.code, env) ∈ execKeys fix := by
  refine List.mem_flatMap.mpr ⟨c, List.mem_filter.mpr ⟨listed, streams⟩, ?_⟩
  cases env with
  | paper => exact List.mem_cons_self
  | live => exact List.mem_cons_of_mem _ List.mem_cons_self

theorem exec_codes_apart {fix : Bool} {k k' : String × Environment} (here : k ∈ execKeys fix)
    (there : k' ∈ execKeys fix) (same : execStreamCode k.1 k.2 = execStreamCode k'.1 k'.2) :
    k = k' := by
  have apart : ∀ fix, ∀ k ∈ execKeys fix, ∀ k' ∈ execKeys fix,
      execStreamCode k.1 k.2 = execStreamCode k'.1 k'.2 → k = k' := by decide +kernel
  exact apart fix k here k' there same

end OmsConnectors
