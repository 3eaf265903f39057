import OpenOms.Connectors
import OpenOms.Library.Registry

/-!
Turning the stored connections into live adapters, and the reload that swaps the
registry and restarts the execution streams. Adapters are instances, numbered as
they are built; a stream is known by the adapter it books against.
-/
namespace OmsReload
open OmsConnectors Registry
variable {F D : Type}

abbrev Adapter := Nat
abbrev Key := String × Environment
abbrev BrokerRegistry := Key → Option Adapter

structure BrokerCredentials (F : Type) where
  kind : String
  fields : F

inductive CredentialState (C : Type) where
  | configured (c : C)
  | unconfigured
  | error (e : String)

/-- `kind` is the row's broker code, whatever its credential is of. -/
structure Connection (C : Type) where
  code : String
  kind : String
  environment : Option String
  status : String
  credentials : CredentialState C

inductive ConnectionOutcome where
  | registered
  | unconfigured
  | disabled
  | failed (reason : String)
  | restartRequired
  deriving DecidableEq, Repr

structure ExecStreamStart where
  code : String
  env : Environment
  adapter : Adapter

structure RegistrationOutput where
  registry : BrokerRegistry
  dailyStats : BrokerRegistry
  execStreams : List ExecStreamStart
  report : List (String × ConnectionOutcome)
  next : Adapter

/-- The build, its environment, and which adapters a connector manages to build for
    a row's credential. -/
structure Process (F : Type) where
  fix : Bool
  transport : Environment → Transport
  builds : String → Manifest → Environment → BrokerCredentials F → Except String Unit

def CredentialState.isConfigured {C : Type} : CredentialState C → Bool
  | .configured _ => true
  | .unconfigured | .error _ => false

def CredentialState.isError {C : Type} : CredentialState C → Bool
  | .error _ => true
  | .unconfigured | .configured _ => false

section
variable (p : Process F)

def classify (conn : Connection (BrokerCredentials F)) (isBoot : Bool) : ConnectionOutcome :=
  if conn.status ≠ "ACTIVE" then .disabled
  else
    match conn.credentials with
    | .unconfigured => .unconfigured
    | .error e => .failed e
    | .configured c =>
      match byCredentialKind p.fix c.kind with
      | some connector =>
        if connector.manifest.sessionBound ∧ ¬ isBoot then .restartRequired else .registered
      | none => .registered

def RegistrationOutput.reported (out : RegistrationOutput)
    (conn : Connection (BrokerCredentials F)) (outcome : ConnectionOutcome) : RegistrationOutput :=
  { out with report := out.report ++ [(conn.code, outcome)] }

def RegistrationOutput.carry (out : RegistrationOutput) (current currentStats : BrokerRegistry)
    (k : Key) : RegistrationOutput :=
  { out with
    registry := if (current k).isSome then Function.update out.registry k (current k)
      else out.registry
    dailyStats := if (currentStats k).isSome then
        Function.update out.dailyStats k (currentStats k)
      else out.dailyStats }

def RegistrationOutput.connect (out : RegistrationOutput) (k : Key) (connected : Connected) :
    RegistrationOutput :=
  { out with
    registry := Function.update out.registry k (some out.next)
    dailyStats := if connected.dailyStats then Function.update out.dailyStats k (some out.next)
      else out.dailyStats
    execStreams := if connected.execStream then out.execStreams ++ [⟨k.1, k.2, out.next⟩]
      else out.execStreams
    next := out.next + 1 }

def registerConn (isBoot : Bool) (current currentStats : BrokerRegistry) (out : RegistrationOutput)
    (conn : Connection (BrokerCredentials F)) : RegistrationOutput :=
  let outcome := classify p conn isBoot
  if outcome = .disabled then out.reported conn outcome
  else
    match Environment.parse conn.environment with
    | none => out.reported conn (.failed "unrecognised environment")
    | some env =>
      match conn.credentials with
      | .unconfigured => out.reported conn outcome
      | .error _ => (out.carry current currentStats (conn.kind, env)).reported conn outcome
      | .configured creds =>
        -- by the credential's kind, not by the row's broker code
        match byCredentialKind p.fix creds.kind with
        | none => out.reported conn (.failed ("no connector for credential kind " ++ creds.kind))
        | some connector =>
          let m := connector.manifest
          if m.liveOnly ∧ env ≠ .live then
            out.reported conn (.failed
              (m.venueName ++ " is LIVE only; this connection's environment is not LIVE"))
          else if outcome = .restartRequired then
            match current (m.code, env) with
            | some _ => (out.carry current currentStats (m.code, env)).reported conn outcome
            | none =>
              out.reported conn (.failed ("connection needs a restart to apply this change " ++
                "and has no running adapter to fall back on"))
          else
            match p.builds conn.code m env creds with
            | .ok _ =>
              (out.connect (m.code, env) (connector.connected (p.transport env))).reported
                conn outcome
            | .error reason => out.reported conn (.failed reason)

def buildRegistry (connections : List (Connection (BrokerCredentials F))) (isBoot : Bool)
    (current currentStats : BrokerRegistry) (next : Adapter) : RegistrationOutput :=
  connections.foldl (registerConn p isBoot current currentStats)
    ⟨fun _ => none, fun _ => none, [], [], next⟩

/-- What a reload changes. A running stream is told by the adapter it books against. -/
structure Running where
  registry : BrokerRegistry
  dailyStats : BrokerRegistry
  streams : String → Option Adapter
  next : Adapter

def nothingDecrypted (anyConfigured anyError : Bool) : Bool := anyError && !anyConfigured

def mustRefuseReload (brokers : List (Connection (BrokerCredentials F)))
    (feeds : List (Connection D)) : Bool :=
  nothingDecrypted
    (brokers.any (·.credentials.isConfigured) || feeds.any (·.credentials.isConfigured))
    (brokers.any (·.credentials.isError) || feeds.any (·.credentials.isError))

def restartExecStream (streams : String → Option Adapter) (start : ExecStreamStart) :
    String → Option Adapter :=
  Function.update streams (execStreamCode start.code start.env) (some start.adapter)

def stopUnregistered (registry : BrokerRegistry) (streams : String → Option Adapter) (k : Key) :
    String → Option Adapter :=
  if registry k = none then Function.update streams (execStreamCode k.1 k.2) none else streams

def applyReload (s : Running) (brokers : List (Connection (BrokerCredentials F)))
    (feeds : List (Connection D)) : Except String (Running × List (String × ConnectionOutcome)) :=
  if mustRefuseReload brokers feeds then
    .error ("refusing to reload: credentials are stored but none of them could be decrypted " ++
      "under the configured master key; the running registry is unchanged")
  else
    let out := buildRegistry p brokers false s.registry s.dailyStats s.next
    let started := out.execStreams.foldl restartExecStream s.streams
    .ok ({ registry := out.registry
           dailyStats := out.dailyStats
           streams := (execKeys p.fix).foldl (stopUnregistered out.registry) started
           next := out.next }, out.report)

def afterReload (s : Running) (brokers : List (Connection (BrokerCredentials F)))
    (feeds : List (Connection D)) : Running :=
  match applyReload p s brokers feeds with
  | .ok (reloaded, _) => reloaded
  | .error _ => s

/-- A connection's stream runs exactly while it has an adapter, and books against it. -/
structure Coherent (s : Running) : Prop where
  streams : ∀ k ∈ execKeys p.fix, s.streams (execStreamCode k.1 k.2) = s.registry k
  issued : ∀ k, ∀ a ∈ s.registry k, a < s.next

/-- Where a reload declines to apply a row's change, the adapter its connection had
    is still registered, unless another row has built one in its place. -/
def KeepsDeclined (s after : Running) (brokers : List (Connection (BrokerCredentials F))) : Prop :=
  ∀ conn ∈ brokers,
    ((∃ e, classify p conn false = .failed e) ∨ classify p conn false = .restartRequired) →
    ∀ env, Environment.parse conn.environment = some env →
      ∀ a ∈ s.registry (conn.kind, env),
        ∃ b ∈ after.registry (conn.kind, env), b = a ∨ s.next ≤ b

def registers (current : BrokerRegistry) (conn : Connection (BrokerCredentials F)) :
    Option (Key × Source) :=
  if conn.status ≠ "ACTIVE" then none
  else
    match Environment.parse conn.environment, conn.credentials with
    | some env, .error _ =>
      if (current (conn.kind, env)).isSome then some ((conn.kind, env), .carried) else none
    | some env, .configured creds =>
      match byCredentialKind p.fix creds.kind with
      | none => none
      | some connector =>
        let k := (connector.manifest.code, env)
        if connector.manifest.liveOnly ∧ env ≠ .live then none
        else if connector.manifest.sessionBound then
          if (current k).isSome then some (k, .carried) else none
        else
          match p.builds conn.code connector.manifest env creds with
          | .ok _ => some (k, .fresh)
          | .error _ => none
    | _, _ => none

/-- An unreadable row carries its old adapter over the one that an earlier row with a
    credential of its broker has just built, and no later row builds one. -/
def CarriesOver (current : BrokerRegistry) (brokers : List (Connection (BrokerCredentials F))) :
    Prop :=
  ∃ k, Overridden (brokers.filterMap (registers p current)) k

/-- A row needs a restart for a credential of another broker, and nothing is registered
    for the row's own. -/
def RestartsElsewhere (current : BrokerRegistry)
    (brokers : List (Connection (BrokerCredentials F))) : Prop :=
  ∃ conn ∈ brokers, classify p conn false = .restartRequired ∧
    ∃ env, Environment.parse conn.environment = some env ∧ current (conn.kind, env) ≠ none ∧
      ∀ src, ((conn.kind, env), src) ∉ brokers.filterMap (registers p current)

end

variable {p : Process F} {s : Running} {current currentStats : BrokerRegistry}
  {streams : String → Option Adapter}

structure Builds (p : Process F) (streams : String → Option Adapter) (out : RegistrationOutput)
    (pass : Pass Key) : Prop where
  registry : out.registry = pass.registered
  next : out.next = pass.next
  started : ∀ k ∈ execKeys p.fix,
    out.execStreams.foldl restartExecStream streams (execStreamCode k.1 k.2) = pass.following k

theorem reported_builds {out : RegistrationOutput} {pass : Pass Key}
    (builds : Builds p streams out pass) (conn : Connection (BrokerCredentials F))
    (outcome : ConnectionOutcome) : Builds p streams (out.reported conn outcome) pass :=
  ⟨builds.registry, builds.next, builds.started⟩

theorem carry_builds {out : RegistrationOutput} {pass : Pass Key}
    (builds : Builds p streams out pass) (k : Key) :
    Builds p streams (out.carry current currentStats k)
      (if (current k).isSome then register current pass (k, .carried) else pass) := by
  split
  · rename_i there
    refine ⟨?_, builds.next, builds.started⟩
    simp [RegistrationOutput.carry, register, there, builds.registry]
  · rename_i missing
    refine ⟨?_, builds.next, builds.started⟩
    simp [RegistrationOutput.carry, missing, builds.registry]

theorem connect_builds {out : RegistrationOutput} {pass : Pass Key}
    (builds : Builds p streams out pass) {connector : Connector} (listed : connector ∈ all p.fix)
    (unbound : connector.manifest.sessionBound = false) (env : Environment)
    (transport : Transport) :
    Builds p streams (out.connect (connector.manifest.code, env) (connector.connected transport))
      (register current pass ((connector.manifest.code, env), .fresh)) := by
  obtain ⟨runs, delivers⟩ := unbound_streams listed unbound
  have own := mem_exec_keys listed runs env
  refine ⟨?_, ?_, ?_⟩
  · simp [RegistrationOutput.connect, register, builds.registry, builds.next]
  · simp [RegistrationOutput.connect, register, builds.next]
  · intro k member
    have before := builds.started k member
    simp only [RegistrationOutput.connect, delivers transport, if_true, List.foldl_append,
      List.foldl_cons, List.foldl_nil, register, restartExecStream, Function.update_apply]
    by_cases same : k = (connector.manifest.code, env)
    · subst same
      simp [builds.next]
    · have apart : execStreamCode k.1 k.2 ≠ execStreamCode connector.manifest.code env :=
        fun codes => same (exec_codes_apart member own codes)
      rw [if_neg apart, if_neg same]
      exact before

theorem classify_active {conn : Connection (BrokerCredentials F)} (active : conn.status = "ACTIVE")
    (isBoot : Bool) : classify p conn isBoot ≠ .disabled := by
  unfold classify
  rw [if_neg (not_not.mpr active)]
  split
  · simp
  · simp
  · split
    · split <;> simp
    · simp

theorem register_conn_builds {out : RegistrationOutput} {pass : Pass Key}
    (builds : Builds p streams out pass) (conn : Connection (BrokerCredentials F)) :
    Builds p streams (registerConn p false current currentStats out conn)
      (((registers p current conn).map (register current pass)).getD pass) := by
  by_cases active : conn.status = "ACTIVE"
  · have able := classify_active (p := p) active false
    cases parsed : Environment.parse conn.environment with
    | none => simpa [registerConn, registers, active, able, parsed] using reported_builds builds _ _
    | some env =>
      cases stored : conn.credentials with
      | unconfigured =>
        simpa [registerConn, registers, active, able, parsed, stored] using
          reported_builds builds _ _
      | error e =>
        have carried : Builds p streams (out.carry current currentStats (conn.kind, env)) _ :=
          carry_builds builds _
        have either : ((if (current (conn.kind, env)).isSome then
            some ((conn.kind, env), Source.carried) else none).map (register current pass)).getD
              pass = if (current (conn.kind, env)).isSome then
                register current pass ((conn.kind, env), .carried) else pass := by
          split <;> rfl
        simp only [registerConn, registers, active, able, parsed, stored, if_false,
          not_true_eq_false, ne_eq, either]
        exact reported_builds carried _ _
      | configured creds =>
        cases found : byCredentialKind p.fix creds.kind with
        | none =>
          simpa [registerConn, registers, active, able, parsed, stored, found] using
            reported_builds builds _ _
        | some connector =>
          by_cases misplaced : connector.manifest.liveOnly ∧ env ≠ .live
          · simpa [registerConn, registers, active, able, parsed, stored, found, misplaced] using
              reported_builds builds _ _
          · cases bound : connector.manifest.sessionBound with
            | true =>
              have restart : classify p conn false = .restartRequired := by
                simp [classify, active, stored, found, bound]
              cases running : current (connector.manifest.code, env) with
              | none =>
                simpa [registerConn, registers, active, parsed, stored, found, misplaced, bound,
                  restart, running] using reported_builds builds _ _
              | some a =>
                have carried : Builds p streams
                    (out.carry current currentStats (connector.manifest.code, env)) _ :=
                  carry_builds builds _
                rw [running, Option.isSome_some, if_pos rfl] at carried
                simpa [registerConn, registers, active, parsed, stored, found, misplaced, bound,
                  restart, running] using reported_builds carried _ _
            | false =>
              have registered : classify p conn false = .registered := by
                simp [classify, active, stored, found, bound]
              cases built : p.builds conn.code connector.manifest env creds with
              | error reason =>
                simpa [registerConn, registers, active, parsed, stored, found, misplaced, bound,
                  registered, built] using reported_builds builds _ _
              | ok _ =>
                have fresh : Builds p streams _ (register current pass _) :=
                  connect_builds builds (find_listed found) bound env (p.transport env)
                simpa [registerConn, registers, active, parsed, stored, found, misplaced, bound,
                  registered, built] using reported_builds fresh _ _
  · simpa [registerConn, registers, classify, active] using reported_builds builds _ _

def following (streams : String → Option Adapter) (k : Key) : Option Adapter :=
  streams (execStreamCode k.1 k.2)

theorem build_builds (brokers : List (Connection (BrokerCredentials F))) (next : Adapter) :
    Builds p streams (buildRegistry p brokers false current currentStats next)
      (rebuild current (following streams) next (brokers.filterMap (registers p current))) := by
  induction brokers using List.reverseRecOn with
  | nil => exact ⟨rfl, rfl, fun _ _ => rfl⟩
  | append_singleton brokers conn ih =>
    have step : Builds p streams
        (registerConn p false current currentStats _ conn) _ := register_conn_builds ih conn
    have output : buildRegistry p (brokers ++ [conn]) false current currentStats next =
        registerConn p false current currentStats
          (buildRegistry p brokers false current currentStats next) conn := by
      simp [buildRegistry]
    rw [output, List.filterMap_append]
    cases reg : registers p current conn with
    | none => simpa [reg] using step
    | some _ => simpa [reg, rebuild_concat] using step

theorem stopped (registry : BrokerRegistry) (streams : String → Option Adapter) {keys : List Key}
    (among : ∀ k ∈ keys, k ∈ execKeys p.fix) {k : Key} (own : k ∈ execKeys p.fix) :
    keys.foldl (stopUnregistered registry) streams (execStreamCode k.1 k.2) =
      if k ∈ keys ∧ registry k = none then none else streams (execStreamCode k.1 k.2) := by
  induction keys using List.reverseRecOn with
  | nil => simp
  | append_singleton keys k' ih =>
    have before := ih fun k member => among k (List.mem_append_left _ member)
    rw [List.foldl_append, List.foldl_cons, List.foldl_nil, stopUnregistered]
    by_cases same : k = k'
    · subst same
      split
      · rename_i missing
        simp [missing]
      · rename_i there
        simp [before, there]
    · have apart : execStreamCode k.1 k.2 ≠ execStreamCode k'.1 k'.2 :=
        fun codes => same (exec_codes_apart own (among k' (by simp)) codes)
      split
      · simp [apart, before, same]
      · simp [before, same]

theorem reloaded {brokers : List (Connection (BrokerCredentials F))} {feeds : List (Connection D)}
    (goes : mustRefuseReload brokers feeds = false) :
    let pass := rebuild s.registry (following s.streams) s.next
      (brokers.filterMap (registers p s.registry))
    (afterReload p s brokers feeds).registry = pass.registered ∧
      (afterReload p s brokers feeds).next = pass.next ∧
      ∀ k ∈ execKeys p.fix, (afterReload p s brokers feeds).streams (execStreamCode k.1 k.2) =
        if pass.registered k = none then none else pass.following k := by
  have builds : Builds p s.streams
      (buildRegistry p brokers false s.registry s.dailyStats s.next) _ :=
    build_builds brokers s.next
  intro pass
  simp only [afterReload, applyReload, goes, Bool.false_eq_true, if_false]
  refine ⟨builds.registry, builds.next, fun k own => ?_⟩
  rw [stopped _ _ (fun _ member => member) own, builds.started k own, builds.registry]
  simp [own, pass]

theorem refused {brokers : List (Connection (BrokerCredentials F))} {feeds : List (Connection D)}
    (refuses : mustRefuseReload brokers feeds = true) : afterReload p s brokers feeds = s := by
  simp [afterReload, applyReload, refuses]

theorem fresh_registers {conn : Connection (BrokerCredentials F)} {k : Key}
    (registered : registers p current conn = some (k, .fresh)) :
    k ∈ execKeys p.fix ∧ conn.credentials.isConfigured = true := by
  unfold registers at registered
  split at registered
  · cases registered
  · split at registered
    · split at registered <;> cases registered
    · rename_i env creds parsed stored
      split at registered
      · cases registered
      · rename_i connector found
        simp only at registered
        split at registered
        · cases registered
        · split at registered
          · split at registered <;> cases registered
          · rename_i unbound
            split at registered
            · cases registered
              have listed := find_listed found
              have streams := (unbound_streams listed (by simpa using unbound)).1
              refine ⟨mem_exec_keys listed streams env, ?_⟩
              simp [stored, CredentialState.isConfigured]
            · cases registered
    · cases registered

theorem carried_running {conn : Connection (BrokerCredentials F)} {k : Key}
    (registered : registers p current conn = some (k, .carried)) : current k ≠ none := by
  unfold registers at registered
  split at registered
  · cases registered
  · split at registered
    · split at registered
      · rename_i there
        cases registered
        simpa [Option.ne_none_iff_isSome] using there
      · cases registered
    · split at registered
      · cases registered
      · simp only at registered
        split at registered
        · cases registered
        · split at registered
          · split at registered
            · rename_i there
              cases registered
              simpa [Option.ne_none_iff_isSome] using there
            · cases registered
          · split at registered <;> cases registered
    · cases registered

theorem configured_goes {brokers : List (Connection (BrokerCredentials F))}
    {feeds : List (Connection D)} {conn : Connection (BrokerCredentials F)}
    (member : conn ∈ brokers) (configured : conn.credentials.isConfigured = true) :
    mustRefuseReload brokers feeds = false := by
  have some_ : brokers.any (·.credentials.isConfigured) = true :=
    List.any_eq_true.mpr ⟨conn, member, configured⟩
  simp [mustRefuseReload, nothingDecrypted, some_]

theorem restart_configured {conn : Connection (BrokerCredentials F)}
    (restart : classify p conn false = .restartRequired) :
    conn.credentials.isConfigured = true := by
  unfold classify at restart
  split at restart
  · cases restart
  · split at restart
    · cases restart
    · cases restart
    · rename_i stored
      simp [stored, CredentialState.isConfigured]

theorem failed_registers {conn : Connection (BrokerCredentials F)} {e : String}
    (failed : classify p conn false = .failed e) {env : Environment}
    (parsed : Environment.parse conn.environment = some env)
    (there : current (conn.kind, env) ≠ none) :
    registers p current conn = some ((conn.kind, env), .carried) := by
  unfold classify at failed
  split at failed
  · cases failed
  · rename_i active
    split at failed
    · cases failed
    · rename_i stored
      simp [registers, active, parsed, stored, Option.isSome_iff_ne_none.mpr there]
    · split at failed
      · split at failed <;> cases failed
      · cases failed

theorem coherent_iff (coherent : Coherent p s) {brokers : List (Connection (BrokerCredentials F))}
    {feeds : List (Connection D)} (goes : mustRefuseReload brokers feeds = false) :
    Coherent p (afterReload p s brokers feeds) ↔ ¬ CarriesOver p s.registry brokers := by
  obtain ⟨registry, next, streams⟩ := @reloaded F D p s brokers feeds goes
  constructor
  · rintro after ⟨k, overridden⟩
    obtain ⟨before, behind, split, made, _⟩ := id overridden
    obtain ⟨_, _, fresh⟩ := List.mem_filterMap.mp
      (show (k, Source.fresh) ∈ brokers.filterMap (registers p s.registry) by simp [split, made])
    obtain ⟨_, _, carried⟩ := List.mem_filterMap.mp
      (show (k, Source.carried) ∈ brokers.filterMap (registers p s.registry) by simp [split])
    obtain ⟨b, running⟩ := Option.ne_none_iff_exists'.mp (carried_running carried)
    have own := (fresh_registers fresh).1
    have same := after.streams k own
    rw [streams k own, registry] at same
    cases @key_state _ _ s.registry (following s.streams) s.next
      (brokers.filterMap (registers p s.registry)) k with
    | untouched none _ _ => exact none .carried (by simp [split])
    | carried _ none _ _ => exact none (by simp [split, made])
    | live _ _ live _ _ _ => exact live overridden
    | stale a _ registered new follows =>
      rw [follows, registered, running] at same
      simp only [reduceCtorEq, if_false, Option.some.injEq] at same
      have old := coherent.issued k b running
      exact absurd (same ▸ new) (Nat.not_le.mpr old)
  · intro none
    refine ⟨fun k own => ?_, ?_⟩
    · rw [streams k own, registry]
      have before : following s.streams k = s.registry k := coherent.streams k own
      cases @key_state _ _ s.registry (following s.streams) s.next
        (brokers.filterMap (registers p s.registry)) k with
      | untouched _ registered _ => simp [registered]
      | carried _ _ registered kept =>
        rw [registered, kept, before]
        split
        · rename_i missing
          exact missing.symm
        · rfl
      | live a _ _ _ registered follows => simp [registered, follows]
      | stale _ overridden _ _ _ => exact absurd ⟨k, overridden⟩ none
    · rw [registry, next]
      exact registered_issued coherent.issued _

theorem keeps_declined_iff {brokers : List (Connection (BrokerCredentials F))}
    {feeds : List (Connection D)} (goes : mustRefuseReload brokers feeds = false) :
    KeepsDeclined p s (afterReload p s brokers feeds) brokers ↔
      ¬ RestartsElsewhere p s.registry brokers := by
  obtain ⟨registry, _, _⟩ := @reloaded F D p s brokers feeds goes
  have state := @key_state _ _ s.registry (following s.streams) s.next
    (brokers.filterMap (registers p s.registry))
  constructor
  · rintro keeps ⟨conn, member, restart, env, parsed, there, nobody⟩
    obtain ⟨a, running⟩ := Option.ne_none_iff_exists'.mp there
    obtain ⟨b, registered, _⟩ := keeps conn member (Or.inr restart) env parsed a running
    rw [registry] at registered
    cases state (conn.kind, env) with
    | untouched _ none _ => cases none.symm.trans registered
    | carried some _ _ _ => exact nobody _ some
    | live _ made _ _ _ _ => exact nobody _ made
    | stale _ overridden _ _ _ =>
      obtain ⟨before, behind, split, _, _⟩ := overridden
      exact nobody .carried (by simp [split])
  · intro none conn member declined env parsed a running
    rw [registry]
    cases state (conn.kind, env) with
    | untouched nobody _ _ =>
      have there : s.registry (conn.kind, env) ≠ .none :=
        Option.ne_none_iff_exists'.mpr ⟨a, running⟩
      rcases declined with ⟨e, failed⟩ | restart
      · exact absurd (List.mem_filterMap.mpr ⟨conn, member, failed_registers failed parsed there⟩)
          (nobody .carried)
      · exact absurd ⟨conn, member, restart, env, parsed, there, nobody⟩ none
    | carried _ _ registered _ => exact ⟨a, registered.trans running, Or.inl rfl⟩
    | live b _ _ new registered _ => exact ⟨b, registered, Or.inr new⟩
    | stale _ _ registered _ _ => exact ⟨a, registered.trans running, Or.inl rfl⟩

/-- A reload keeps streams and adapters together, and drops no adapter of a row it
    declines to apply, exactly when no unreadable row carries its adapter over one
    just built and no row needs a restart for another broker's credential. -/
theorem reload_coherent_iff (coherent : Coherent p s)
    (brokers : List (Connection (BrokerCredentials F))) (feeds : List (Connection D)) :
    (Coherent p (afterReload p s brokers feeds) ∧
        KeepsDeclined p s (afterReload p s brokers feeds) brokers) ↔
      ¬ CarriesOver p s.registry brokers ∧ ¬ RestartsElsewhere p s.registry brokers := by
  cases goes : mustRefuseReload brokers feeds with
  | false => rw [coherent_iff coherent goes, keeps_declined_iff goes]
  | true =>
    rw [refused goes]
    have unread : ∀ conn ∈ brokers, conn.credentials.isConfigured ≠ true :=
      fun conn member configured =>
        Bool.false_ne_true ((configured_goes member configured).symm.trans goes)
    refine iff_of_true ⟨coherent, fun _ _ _ _ _ a running => ⟨a, running, Or.inl rfl⟩⟩ ⟨?_, ?_⟩
    · rintro ⟨k, before, behind, split, made, _⟩
      obtain ⟨conn, member, fresh⟩ := List.mem_filterMap.mp
        (show (k, Source.fresh) ∈ brokers.filterMap (registers p s.registry) by simp [split, made])
      exact unread conn member (fresh_registers fresh).2
    · rintro ⟨conn, member, restart, _⟩
      exact unread conn member (restart_configured restart)

def demo : Process Unit where
  fix := false
  transport _ := .rest
  builds _ _ _ _ := .ok ()

def okxLive : Running where
  registry k := if k = ("OKX", .live) then some 0 else none
  dailyStats k := if k = ("OKX", .live) then some 0 else none
  streams code := if code = "okx-live:exec" then some 0 else none
  next := 1

theorem okx_live_coherent : Coherent demo okxLive := by
  refine ⟨by decide +kernel, fun k a registered => ?_⟩
  simp only [okxLive] at registered ⊢
  split at registered
  · cases registered
    exact Nat.zero_lt_one
  · cases registered

def liveRow (code kind : String) (credentials : CredentialState (BrokerCredentials Unit)) :
    Connection (BrokerCredentials Unit) where
  code := code
  kind := kind
  environment := some "LIVE"
  status := "ACTIVE"
  credentials := credentials

def misplacedThenUnreadable : List (Connection (BrokerCredentials Unit)) :=
  [liveRow "alpaca-live" "ALPACA" (.configured ⟨"Okx", ()⟩),
    liveRow "okx-live" "OKX" (.error "could not decrypt")]

def restartMisplaced : List (Connection (BrokerCredentials Unit)) :=
  [liveRow "okx-live" "OKX" (.configured ⟨"BinanceFix", ()⟩)]

/-- The stream moves to the new adapter while the registry keeps the old one; a row
    that needs a restart loses the adapter it had. -/
theorem reload_parts_stream_and_adapter :
    Coherent demo okxLive ∧
      ¬ Coherent demo (afterReload demo okxLive misplacedThenUnreadable
        ([] : List (Connection Unit))) ∧
      ¬ KeepsDeclined demo okxLive (afterReload demo okxLive restartMisplaced
        ([] : List (Connection Unit))) restartMisplaced := by
  refine ⟨okx_live_coherent, fun coherent => ?_, fun keeps => ?_⟩
  · have same := coherent.streams ("OKX", .live) (by decide +kernel)
    revert same
    decide +kernel
  · obtain ⟨b, registered, _⟩ := keeps (liveRow "okx-live" "OKX" (.configured ⟨"BinanceFix", ()⟩))
      List.mem_cons_self (Or.inr (by decide +kernel)) .live rfl 0 rfl
    have gone : (afterReload demo okxLive restartMisplaced
        ([] : List (Connection Unit))).registry ("OKX", .live) = none := by decide +kernel
    cases gone.symm.trans registered

def oneUnreadable : List (Connection (BrokerCredentials Unit)) :=
  [liveRow "alpaca-live" "ALPACA" (.configured ⟨"Alpaca", ()⟩),
    liveRow "okx-live" "OKX" (.error "could not decrypt")]

theorem one_unreadable_reload :
    (Coherent demo (afterReload demo okxLive oneUnreadable ([] : List (Connection Unit))) ∧
      KeepsDeclined demo okxLive (afterReload demo okxLive oneUnreadable
        ([] : List (Connection Unit))) oneUnreadable) ↔
      ¬ CarriesOver demo okxLive.registry oneUnreadable ∧
        ¬ RestartsElsewhere demo okxLive.registry oneUnreadable :=
  reload_coherent_iff okx_live_coherent oneUnreadable []

end OmsReload
