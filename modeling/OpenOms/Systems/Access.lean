import OpenOms.Access.Tables
import OpenOms.Library.Lists
import OpenOms.Library.Runs

/-!
Browser sessions from sign-in to sign-out: sign-ins that find or provision a principal,
requests and sockets that look their session up and touch it, logouts, an admin's
revocations and the sweep, statement by statement in any order. A statement that fails
leaves its call where it is. Of what an admin may update of a principal only the status is
here, and the program and the database go by one clock.
-/
namespace OmsAccessRuns
open OmsAccess PartialIndex Lists Runs

inductive SignInStage where
  | finding
  | probing (suffix : Nat)
  | inserting (code : String)
  | resolved (principalId : Nat)
  | signedIn (session principalId : Nat) (tokenHash : String) (since : Int)
  | refused
  | failed
  deriving DecidableEq, Repr

structure SignIn where
  identity : VerifiedIdentity
  stage : SignInStage
  deriving DecidableEq, Repr

inductive RequestStage where
  | asked
  | found (session : SessionRecord)
  | touching (session : SessionRecord)
  | done (session : Option SessionRecord)
  deriving DecidableEq, Repr

structure Request where
  tokenHash : String
  checkedAt : Int
  stage : RequestStage
  deriving DecidableEq, Repr

inductive SocketStage where
  | waiting
  | found (session : Option SessionRecord)
  | touching (session : SessionRecord)
  | closed
  deriving DecidableEq, Repr

structure Socket where
  tokenHash : String
  stage : SocketStage
  deriving DecidableEq, Repr

inductive LogoutStage where
  | asked
  | revoking (session : Nat)
  | done
  deriving DecidableEq, Repr

structure Logout where
  tokenHash : String
  stage : LogoutStage
  deriving DecidableEq, Repr

/-- `drawn` counts the sessions' ids drawn. -/
structure Access where
  now : Int
  principals : List Principal
  sessions : List UserSession
  drawn : Nat
  signIns : List SignIn
  requests : List Request
  sockets : List Socket
  logouts : List Logout
  deriving DecidableEq, Repr

def Access.start (now : Int) : Access := ⟨now, [], [], 0, [], [], [], []⟩

inductive Action where
  | pass (now : Int)
  | createPrincipal (p : Principal)
  | setStatus (principalId : Nat) (status : PrincipalStatus)
  | signIn (identity : VerifiedIdentity)
  | find (c : Nat)
  | probe (c : Nat)
  | provision (c : Nat)
  | createSession (c : Nat) (tokenHash : String)
  | request (tokenHash : String)
  | lookUp (r : Nat)
  | check (r : Nat)
  | touch (r : Nat)
  | open_ (tokenHash : String)
  | keepalive (k : Nat)
  | keep (k : Nat)
  | keepTouch (k : Nat)
  | logout (tokenHash : String)
  | logoutLookUp (l : Nat)
  | revoke (l : Nat)
  | revokeAll (principalId : Nat)
  | sweep
  deriving DecidableEq, Repr

variable (ttl : SessionTtl) (requiredClaim : Option (String × String))

def setSignIn (s : Access) (c : Nat) (call : SignIn) (stage : SignInStage) : Access :=
  { s with signIns := s.signIns.set c { call with stage } }

def signInStep (s : Access) (c : Nat) (call : SignIn) : Action → Option Access
  | .find _ =>
    match call.stage, findSubject s.principals call.identity.subject with
    | .finding, some id => some (setSignIn s c call (.resolved id))
    | .finding, none =>
      some (setSignIn s c call
        (if admitted requiredClaim call.identity then .probing 1 else .refused))
    | _, _ => none
  | .probe _ =>
    match call.stage with
    | .probing suffix =>
      let code := candidate (codeBase call.identity) suffix
      some (setSignIn s c call
        (if isTaken s.principals code then .probing (suffix + 1) else .inserting code))
    | _ => none
  | .provision _ =>
    match call.stage with
    | .inserting code =>
      match insertPrincipal s.principals code call.identity.subject call.identity.displayName with
      | .row principals id => some (setSignIn { s with principals } c call (.resolved id))
      | .refused => some (setSignIn s c call .refused)
      | .codeTaken => some (setSignIn s c call .failed)
    | _ => none
  | .createSession _ tokenHash =>
    match call.stage with
    | .resolved id =>
      match OmsAccess.createSession s.sessions ttl s.drawn id tokenHash s.now with
      | some sessions =>
        let minted := { s with sessions, drawn := s.drawn + 1 }
        some (setSignIn minted c call (.signedIn s.drawn id tokenHash s.now))
      | none => some (setSignIn s c call .failed)
    | _ => none
  | _ => none

def setRequest (s : Access) (r : Nat) (req : Request) : Access :=
  { s with requests := s.requests.set r req }

def requestStep (s : Access) (r : Nat) (req : Request) : Action → Option Access
  | .lookUp _ =>
    match req.stage, lookupSession s.principals s.sessions req.tokenHash with
    | .asked, some session => some (setRequest s r { req with stage := .found session })
    | .asked, none => some (setRequest s r { req with stage := .done none })
    | _, _ => none
  | .check _ =>
    match req.stage with
    | .found session =>
      let stage : RequestStage :=
        if isExpired ttl s.now session then .done none
        else if needsTouch s.now session.lastSeenAt then .touching session
        else .done (some session)
      some (setRequest s r { req with checkedAt := s.now, stage })
    | _ => none
  | .touch _ =>
    match req.stage with
    | .touching session =>
      let touched := { s with sessions := touchSession s.sessions session.id s.now }
      some (setRequest touched r { req with stage := .done (some session) })
    | _ => none
  | _ => none

def setSocket (s : Access) (k : Nat) (socket : Socket) (stage : SocketStage) : Access :=
  { s with sockets := s.sockets.set k { socket with stage } }

def socketStep (s : Access) (k : Nat) (socket : Socket) : Action → Option Access
  | .keepalive _ =>
    match socket.stage with
    | .waiting =>
      some (setSocket s k socket (.found (lookupSession s.principals s.sessions socket.tokenHash)))
    | _ => none
  | .keep _ =>
    match socket.stage with
    | .found session =>
      match session with
      | some own =>
        some (setSocket s k socket
          (if keepaliveTouches session s.now then .touching own else .closed))
      | none => some (setSocket s k socket .closed)
    | _ => none
  | .keepTouch _ =>
    match socket.stage with
    | .touching session =>
      let touched := { s with sessions := touchSession s.sessions session.id s.now }
      some (setSocket touched k socket .waiting)
    | _ => none
  | _ => none

def setLogout (s : Access) (l : Nat) (out : Logout) (stage : LogoutStage) : Access :=
  { s with logouts := s.logouts.set l { out with stage } }

def logoutStep (s : Access) (l : Nat) (out : Logout) : Action → Option Access
  | .logoutLookUp _ =>
    match out.stage, lookupSession s.principals s.sessions out.tokenHash with
    | .asked, some session => some (setLogout s l out (.revoking session.id))
    | .asked, none => some (setLogout s l out .done)
    | _, _ => none
  | .revoke _ =>
    match out.stage with
    | .revoking session =>
      let revoked := { s with sessions := revokeSession s.sessions session }
      some (setLogout revoked l out .done)
    | _ => none
  | _ => none

def step (s : Access) (a : Action) : Option Access :=
  match a with
  | .pass now => if s.now ≤ now then some { s with now } else none
  | .createPrincipal p =>
    (createPrincipal s.principals p).map fun principals => { s with principals }
  | .setStatus id status =>
    some { s with principals := s.principals.modify id fun p => { p with status } }
  | .signIn identity => some { s with signIns := s.signIns ++ [⟨identity, .finding⟩] }
  | .request tokenHash => some { s with requests := s.requests ++ [⟨tokenHash, s.now, .asked⟩] }
  | .open_ tokenHash => some { s with sockets := s.sockets ++ [⟨tokenHash, .waiting⟩] }
  | .logout tokenHash => some { s with logouts := s.logouts ++ [⟨tokenHash, .asked⟩] }
  | .find c | .probe c | .provision c | .createSession c _ =>
    s.signIns[c]?.bind fun call => signInStep ttl requiredClaim s c call a
  | .lookUp r | .check r | .touch r => s.requests[r]?.bind fun req => requestStep ttl s r req a
  | .keepalive k | .keep k | .keepTouch k => s.sockets[k]?.bind fun socket => socketStep s k socket a
  | .logoutLookUp l | .revoke l => s.logouts[l]?.bind fun out => logoutStep s l out a
  | .revokeAll id => some { s with sessions := revokeAllForPrincipal s.sessions id }
  | .sweep => some { s with sessions := sweepExpired s.sessions s.now }

def SignInStage.principal : SignInStage → Option Nat
  | .resolved id => some id
  | .signedIn _ id _ _ => some id
  | _ => none

def SignInStage.minted : SignInStage → Bool
  | .signedIn _ _ _ _ => true
  | _ => false

def RequestStage.session : RequestStage → Option SessionRecord
  | .asked => none
  | .found session => some session
  | .touching session => some session
  | .done session => session

def Belongs (principals : List Principal) (id : Nat) (identity : VerifiedIdentity) : Prop :=
  ∃ p, principals[id]? = some p ∧ p.externalSubject = some identity.subject ∧
    p.principalType = .human

def Backed (s : Access) (tokenHash : String) (session : SessionRecord) : Prop :=
  ∃ c ∈ s.signIns, ∃ since,
    c.stage = .signedIn session.id session.principalId tokenHash since ∧
      session.absoluteExpiresAt = since + ttl.absolute

/-- A request let in is in the name of the human who signed in for its session, within the
    session's times; a session so used stays in use; and a subject signs in as one
    principal, with a subject and a code of its own. -/
structure Sound (s : Access) : Prop where
  authenticated : ∀ r ∈ s.requests, ∀ session, r.stage = .done (some session) →
    ∃ c ∈ s.signIns, ∃ since, c.stage = .signedIn session.id session.principalId r.tokenHash since ∧
      Belongs s.principals session.principalId c.identity ∧ r.checkedAt < since + ttl.absolute ∧
        r.checkedAt - session.lastSeenAt < ttl.idle
  named : ∀ r ∈ s.requests, ∀ session, r.stage = .done (some session) →
    ∃ p, s.principals[session.principalId]? = some p ∧ p.code = session.principalCode
  used : ∀ r ∈ s.requests, ∀ session, r.stage = .done (some session) →
    ∀ u ∈ s.sessions, u.id = session.id →
      r.checkedAt - u.lastSeenAt < (TOUCH_INTERVAL_SECONDS + 1) * SECOND
  one : ∀ c ∈ s.signIns, ∀ d ∈ s.signIns, c.identity.subject = d.identity.subject →
    ∀ p q, c.stage.principal = some p → d.stage.principal = some q → p = q
  subjects : Unique Principal.externalSubject s.principals
  codes : (s.principals.map Principal.code).Nodup

structure Ids (s : Access) : Prop where
  subjects : Unique Principal.externalSubject s.principals
  codes : (s.principals.map Principal.code).Nodup
  belongs : ∀ c ∈ s.signIns, ∀ id, c.stage.principal = some id → Belongs s.principals id c.identity

def Mints (s : Access) (u : UserSession) : Prop :=
  u.lastSeenAt ≤ s.now ∧ ∃ c ∈ s.signIns, ∃ since,
    c.stage = .signedIn u.id u.principalId u.tokenHash since ∧
      u.absoluteExpiresAt = since + ttl.absolute

structure Minted (s : Access) : Prop where
  session : ∀ u ∈ s.sessions, Mints ttl s u
  drawn : ∀ c ∈ s.signIns, ∀ id p h since, c.stage = .signedIn id p h since → id < s.drawn
  ids : s.sessions.Pairwise fun a b => a.id ≠ b.id

def Stands (s : Access) (r : Request) : Prop :=
  match r.stage with
  | .asked => True
  | .found session => ∀ u ∈ s.sessions, u.id = session.id → session.lastSeenAt ≤ u.lastSeenAt
  | .touching session => r.checkedAt ≤ s.now ∧ r.checkedAt < session.absoluteExpiresAt ∧
      r.checkedAt - session.lastSeenAt < ttl.idle
  | .done none => True
  | .done (some session) => r.checkedAt < session.absoluteExpiresAt ∧
      r.checkedAt - session.lastSeenAt < ttl.idle ∧ ∀ u ∈ s.sessions, u.id = session.id →
        r.checkedAt - u.lastSeenAt < (TOUCH_INTERVAL_SECONDS + 1) * SECOND

structure Answered (s : Access) (r : Request) : Prop where
  backed : ∀ session, r.stage.session = some session → Backed ttl s r.tokenHash session
  named : ∀ session, r.stage.session = some session →
    ∃ p, s.principals[session.principalId]? = some p ∧ p.code = session.principalCode
  stands : Stands ttl s r

structure Inv (s : Access) : Prop where
  ids : Ids s
  minted : Minted ttl s
  requests : ∀ r ∈ s.requests, Answered ttl s r

def SamePrincipal (p new : Principal) : Prop :=
  new.code = p.code ∧ new.principalType = p.principalType ∧ new.externalSubject = p.externalSubject

def Carried (principals next : List Principal) : Prop :=
  ∀ (id : Nat) p, principals[id]? = some p → ∃ new, next[id]? = some new ∧ SamePrincipal p new

structure Aged (now : Int) (u new : UserSession) : Prop where
  id : new.id = u.id
  principalId : new.principalId = u.principalId
  tokenHash : new.tokenHash = u.tokenHash
  absoluteExpiresAt : new.absoluteExpiresAt = u.absoluteExpiresAt
  lastSeenAt : new.lastSeenAt = u.lastSeenAt ∨ new.lastSeenAt = now

structure Later (s t : Access) : Prop where
  clock : s.now ≤ t.now
  drawn : s.drawn ≤ t.drawn
  principals : Carried s.principals t.principals
  signIns : ∀ c ∈ s.signIns, c.stage.minted = true → c ∈ t.signIns
  sessions : ∀ new ∈ t.sessions, s.drawn ≤ new.id ∨ ∃ u ∈ s.sessions, Aged t.now u new

variable {ttl} {requiredClaim} {s t : Access}

theorem carried_refl (principals : List Principal) : Carried principals principals :=
  fun _ p there => ⟨p, there, rfl, rfl, rfl⟩

theorem carried_modify {principals : List Principal} {change : Principal → Principal}
    (same : ∀ p, SamePrincipal p (change p)) (i : Nat) :
    Carried principals (principals.modify i change) := by
  intro id p there
  rw [List.getElem?_modify, there]
  split
  · exact ⟨change p, rfl, same p⟩
  · exact ⟨p, rfl, rfl, rfl, rfl⟩

theorem carried_append (principals : List Principal) (p : Principal) :
    Carried principals (principals ++ [p]) := by
  intro id old there
  have bound := (List.getElem?_eq_some_iff.mp there).1
  exact ⟨old, by rw [List.getElem?_append_left bound, there], rfl, rfl, rfl⟩

theorem belongs_carried {principals next : List Principal} {id : Nat} {identity : VerifiedIdentity}
    (carried : Carried principals next) (belongs : Belongs principals id identity) :
    Belongs next id identity := by
  obtain ⟨p, there, subject, human⟩ := belongs
  obtain ⟨new, here, same⟩ := carried id p there
  exact ⟨new, here, same.2.2.trans subject, same.2.1.trans human⟩

theorem aged_refl (now : Int) (u : UserSession) : Aged now u u := ⟨rfl, rfl, rfl, rfl, Or.inl rfl⟩

theorem backed_later {h : String} {session : SessionRecord} (later : Later s t)
    (backed : Backed ttl s h session) : Backed ttl t h session := by
  obtain ⟨c, member, since, own, expires⟩ := backed
  exact ⟨c, later.signIns c member (by rw [own]; rfl), since, own, expires⟩

/-- A session's look-up keeps its id for good: no later session is given it. -/
theorem backed_drawn {h : String} {session : SessionRecord} (minted : Minted ttl s)
    (backed : Backed ttl s h session) : session.id < s.drawn := by
  obtain ⟨c, member, since, own, _⟩ := backed
  exact minted.drawn c member _ _ _ _ own

theorem later_session {id : Nat} {new : UserSession} (minted : Minted ttl s) (later : Later s t)
    (old : id < s.drawn) (there : new ∈ t.sessions) (own : new.id = id) :
    ∃ u ∈ s.sessions, u.id = id ∧ u.lastSeenAt ≤ new.lastSeenAt := by
  rcases later.sessions new there with fresh | ⟨u, member, aged⟩
  · omega
  · refine ⟨u, member, aged.id.symm.trans own, ?_⟩
    have used := (minted.session u member).1
    have forward := later.clock
    rcases aged.lastSeenAt with same | now
    · omega
    · omega

theorem stands_later {r : Request} (inv : Inv ttl s) (later : Later s t)
    (answered : Answered ttl s r) : Stands ttl t r := by
  obtain ⟨backed, _, stands⟩ := answered
  have forward := later.clock
  have kept : ∀ session, r.stage.session = some session → ∀ new ∈ t.sessions,
      new.id = session.id → ∃ u ∈ s.sessions, u.id = session.id ∧ u.lastSeenAt ≤ new.lastSeenAt :=
    fun session own new there is =>
      later_session inv.minted later (backed_drawn inv.minted (backed session own)) there is
  unfold Stands at stands ⊢
  split <;> rename_i own <;> simp only [own] at stands kept
  · trivial
  · intro new there is
    obtain ⟨u, member, same, used⟩ := kept _ rfl new there is
    exact (stands u member same).trans used
  · exact ⟨by omega, stands.2⟩
  · trivial
  · refine ⟨stands.1, stands.2.1, ?_⟩
    intro new there is
    obtain ⟨u, member, same, used⟩ := kept _ rfl new there is
    have before := stands.2.2 u member same
    omega

theorem answered_later {r : Request} (inv : Inv ttl s) (later : Later s t)
    (answered : Answered ttl s r) : Answered ttl t r where
  backed := fun session own => backed_later later (answered.backed session own)
  named := by
    intro session own
    obtain ⟨p, there, code⟩ := answered.named session own
    obtain ⟨new, here, same⟩ := later.principals _ p there
    exact ⟨new, here, same.1.trans code⟩
  stands := stands_later inv later answered

theorem mints_aged {u new : UserSession} (later : Later s t) (mints : Mints ttl s u)
    (aged : Aged t.now u new) : Mints ttl t new := by
  obtain ⟨used, c, member, since, own, expires⟩ := mints
  refine ⟨?_, c, later.signIns c member (by rw [own]; rfl), since, ?_, ?_⟩
  · have forward := later.clock
    rcases aged.lastSeenAt with same | now
    · omega
    · omega
  · rw [aged.id, aged.principalId, aged.tokenHash]
    exact own
  · rw [aged.absoluteExpiresAt, expires]

theorem quiet_keeps (inv : Inv ttl s) (clock : s.now ≤ t.now) (drawn : t.drawn = s.drawn)
    (principals : t.principals = s.principals) (signIns : t.signIns = s.signIns)
    (sessions : ∀ new ∈ t.sessions, ∃ u ∈ s.sessions, Aged t.now u new)
    (apart : t.sessions.Pairwise fun a b => a.id ≠ b.id)
    (requests : ∀ r ∈ t.requests, r ∈ s.requests ∨ (Later s t → Answered ttl t r)) : Inv ttl t := by
  have later : Later s t :=
    { clock
      drawn := Nat.le_of_eq drawn.symm
      principals := by rw [principals]; exact carried_refl _
      signIns := fun c member _ => by rw [signIns]; exact member
      sessions := fun new member => Or.inr (sessions new member) }
  refine ⟨?_, ?_, ?_⟩
  · obtain ⟨subjects, codes, belongs⟩ := inv.ids
    constructor
    · rw [principals]; exact subjects
    · rw [principals]; exact codes
    · rw [principals, signIns]; exact belongs
  · constructor
    · intro new member
      obtain ⟨u, there, aged⟩ := sessions new member
      exact mints_aged later (inv.minted.session u there) aged
    · rw [signIns, drawn]; exact inv.minted.drawn
    · exact apart
  · intro r member
    rcases requests r member with old | new
    · exact answered_later inv later (inv.requests r old)
    · exact new later

theorem principals_keep {principals : List Principal} (inv : Inv ttl s)
    (carried : Carried s.principals principals)
    (subjects : Unique Principal.externalSubject principals)
    (codes : (principals.map Principal.code).Nodup) : Inv ttl { s with principals } := by
  have later : Later s { s with principals } :=
    { clock := Int.le_refl _
      drawn := Nat.le_refl _
      principals := carried
      signIns := fun _ member _ => member
      sessions := fun u member => Or.inr ⟨u, member, aged_refl _ u⟩ }
  refine ⟨⟨subjects, codes, ?_⟩, ⟨inv.minted.session, inv.minted.drawn, inv.minted.ids⟩, ?_⟩
  · intro c member id own
    exact belongs_carried carried (inv.ids.belongs c member id own)
  · exact fun r member => answered_later inv later (inv.requests r member)

theorem sign_in_keeps {c : Nat} {call : SignIn} {stage : SignInStage} (inv : Inv ttl s)
    (there : s.signIns[c]? = some call) (before : call.stage.minted = false)
    (after : stage.minted = false)
    (belongs : ∀ id, stage.principal = some id → Belongs s.principals id call.identity) :
    Inv ttl (setSignIn s c call stage) := by
  have kept : ∀ d ∈ s.signIns, d.stage.minted = true → d ∈ s.signIns.set c { call with stage } := by
    intro d member minted
    refine mem_set_of_ne there member ?_
    rintro rfl
    rw [before] at minted
    cases minted
  have later : Later s (setSignIn s c call stage) :=
    { clock := Int.le_refl _
      drawn := Nat.le_refl _
      principals := carried_refl _
      signIns := kept
      sessions := fun u member => Or.inr ⟨u, member, aged_refl _ u⟩ }
  refine ⟨⟨inv.ids.subjects, inv.ids.codes, forall_mem_set inv.ids.belongs belongs⟩, ?_, ?_⟩
  · refine ⟨?_, ?_, inv.minted.ids⟩
    · exact fun u member => mints_aged later (inv.minted.session u member) (aged_refl _ u)
    · refine forall_mem_set inv.minted.drawn ?_
      rintro id p h since rfl
      cases after
  · exact fun r member => answered_later inv later (inv.requests r member)

theorem mint_keeps {c id : Nat} {call : SignIn} {tokenHash : String} (inv : Inv ttl s)
    (there : s.signIns[c]? = some call) (own : call.stage = .resolved id) :
    Inv ttl { s with
      sessions := s.sessions ++ [⟨s.drawn, id, tokenHash, s.now, s.now + ttl.absolute, false⟩]
      drawn := s.drawn + 1
      signIns := s.signIns.set c { call with stage := .signedIn s.drawn id tokenHash s.now } } := by
  have here := List.mem_of_getElem? there
  have bound := (List.getElem?_eq_some_iff.mp there).1
  have kept : ∀ d ∈ s.signIns, d.stage.minted = true →
      d ∈ s.signIns.set c { call with stage := .signedIn s.drawn id tokenHash s.now } := by
    intro d member minted
    refine mem_set_of_ne there member ?_
    rintro rfl
    rw [own] at minted
    cases minted
  refine ⟨⟨inv.ids.subjects, inv.ids.codes, ?_⟩, ?_, ?_⟩
  · refine forall_mem_set inv.ids.belongs ?_
    intro p is
    cases is
    exact inv.ids.belongs call here id (by rw [own]; rfl)
  · refine ⟨?_, ?_, ?_⟩
    · intro u member
      rcases List.mem_append.mp member with old | new
      · obtain ⟨used, d, at_, since, got, expires⟩ := inv.minted.session u old
        exact ⟨used, d, kept d at_ (by rw [got]; rfl), since, got, expires⟩
      · rw [List.mem_singleton.mp new]
        exact ⟨Int.le_refl _, _, List.mem_set bound _, s.now, rfl, rfl⟩
    · refine forall_mem_set ?_ ?_
      · exact fun d member i p h since got => Nat.lt_succ_of_lt (inv.minted.drawn d member i p h since got)
      · intro i p h since got
        cases got
        exact Nat.lt_succ_self _
    · refine List.pairwise_append.mpr ⟨inv.minted.ids, List.pairwise_singleton _ _, ?_⟩
      intro u member new at_
      rw [List.mem_singleton.mp at_]
      obtain ⟨_, d, there_, since, got, _⟩ := inv.minted.session u member
      exact Nat.ne_of_lt (inv.minted.drawn d there_ _ _ _ _ got)
  · intro r member
    refine answered_later inv ?_ (inv.requests r member)
    refine ⟨Int.le_refl _, Nat.le_succ _, carried_refl _, kept, ?_⟩
    intro u member
    rcases List.mem_append.mp member with old | new
    · exact Or.inr ⟨u, old, aged_refl _ u⟩
    · rw [List.mem_singleton.mp new]
      exact Or.inl (Nat.le_refl _)

theorem session_unique (inv : Inv ttl s) {u v : UserSession} (here : u ∈ s.sessions)
    (there : v ∈ s.sessions) (same : u.id = v.id) : u = v := by
  by_contra other
  have symm : Std.Symm fun a b : UserSession => a.id ≠ b.id := ⟨fun _ _ apart => apart.symm⟩
  exact inv.minted.ids.forall here there other same

theorem mapped_ids {change : UserSession → UserSession} (same : ∀ u, (change u).id = u.id)
    (inv : Inv ttl s) : (s.sessions.map change).Pairwise fun a b => a.id ≠ b.id := by
  rw [List.pairwise_map]
  refine inv.minted.ids.imp ?_
  intro a b apart
  rw [same, same]
  exact apart

theorem touch_aged (id : Nat) (now : Int) (u : UserSession) :
    Aged now u (if u.id = id then { u with lastSeenAt := now } else u) := by
  split
  · exact ⟨rfl, rfl, rfl, rfl, Or.inr rfl⟩
  · exact aged_refl now u

theorem touched_aged {sessions : List UserSession} {id : Nat} {now : Int} {new : UserSession}
    (member : new ∈ touchSession sessions id now) : ∃ u ∈ sessions, Aged now u new := by
  obtain ⟨u, there, rfl⟩ := List.mem_map.mp member
  exact ⟨u, there, touch_aged id now u⟩

theorem touch_keeps {id : Nat} (inv : Inv ttl s) (sessions : t.sessions = touchSession s.sessions id s.now)
    (clock : t.now = s.now) (drawn : t.drawn = s.drawn) (principals : t.principals = s.principals)
    (signIns : t.signIns = s.signIns)
    (requests : ∀ r ∈ t.requests, r ∈ s.requests ∨ (Later s t → Answered ttl t r)) : Inv ttl t := by
  refine quiet_keeps inv (Int.le_of_eq clock.symm) drawn principals signIns ?_ ?_ requests
  · intro new member
    rw [sessions] at member
    rw [clock]
    exact touched_aged member
  · rw [sessions]
    exact mapped_ids (fun u => (touch_aged id s.now u).id) inv

theorem revoke_keeps {p : UserSession → Prop} [DecidablePred p] (inv : Inv ttl s)
    (sessions : t.sessions = s.sessions.map fun u => if p u then { u with revoked := true } else u)
    (clock : t.now = s.now) (drawn : t.drawn = s.drawn) (principals : t.principals = s.principals)
    (signIns : t.signIns = s.signIns) (requests : t.requests = s.requests) : Inv ttl t := by
  have aged : ∀ u, Aged s.now u (if p u then { u with revoked := true } else u) := by
    intro u
    split
    · exact ⟨rfl, rfl, rfl, rfl, Or.inl rfl⟩
    · exact aged_refl s.now u
  refine quiet_keeps inv (Int.le_of_eq clock.symm) drawn principals signIns ?_ ?_ ?_
  · intro new member
    rw [sessions] at member
    obtain ⟨u, there, rfl⟩ := List.mem_map.mp member
    rw [clock]
    exact ⟨u, there, aged u⟩
  · rw [sessions]
    exact mapped_ids (fun u => (aged u).id) inv
  · intro r member
    rw [requests] at member
    exact Or.inl member

theorem record_some {principals : List Principal} {u : UserSession} {session : SessionRecord}
    (read : record principals u = some session) :
    session.id = u.id ∧ session.principalId = u.principalId ∧ session.lastSeenAt = u.lastSeenAt ∧
      session.absoluteExpiresAt = u.absoluteExpiresAt ∧ u.revoked = false ∧
        ∃ p, principals[u.principalId]? = some p ∧ p.code = session.principalCode := by
  unfold record at read
  split at read
  · rename_i p there
    split at read
    · rename_i open_
      cases read
      simp only [Bool.and_eq_true, Bool.not_eq_true'] at open_
      exact ⟨rfl, rfl, rfl, rfl, open_.1, p, there, rfl⟩
    · cases read
  · cases read

theorem lookup_some {principals : List Principal} {sessions : List UserSession} {h : String}
    {session : SessionRecord} (found : lookupSession principals sessions h = some session) :
    ∃ u ∈ sessions, u.tokenHash = h ∧ record principals u = some session := by
  obtain ⟨u, there, read⟩ := Option.bind_eq_some_iff.mp found
  exact ⟨u, List.mem_of_find?_eq_some there, by simpa using List.find?_some there, read⟩

theorem set_request {requests : List Request} {r : Nat} {req : Request} {P : Request → Prop}
    (new : P req) : ∀ x ∈ requests.set r req, x ∈ requests ∨ P x := by
  intro x member
  rcases List.mem_or_eq_of_mem_set member with old | rfl
  · exact Or.inl old
  · exact Or.inr new

theorem quiet_requests {requests : List Request} (inv : Inv ttl s)
    (each : ∀ r ∈ requests, r ∈ s.requests ∨ Answered ttl { s with requests } r) :
    Inv ttl { s with requests } :=
  quiet_keeps inv (Int.le_refl _) rfl rfl rfl (fun u member => ⟨u, member, aged_refl _ u⟩)
    inv.minted.ids fun r member => (each r member).imp_right fun answered _ => answered

theorem fresh_of_untouched {now lastSeenAt : Int} (quiet : needsTouch now lastSeenAt = false) :
    now - lastSeenAt < (TOUCH_INTERVAL_SECONDS + 1) * SECOND := by
  simp only [needsTouch, TOUCH_INTERVAL_SECONDS, SECOND, decide_eq_false_iff_not, not_lt, gt_iff_lt]
    at quiet ⊢
  by_cases forward : 0 ≤ now - lastSeenAt
  · rw [Int.tdiv_eq_ediv_of_nonneg forward] at quiet
    omega
  · omega

theorem request_keeps {r : Nat} {req : Request} {a : Action} (inv : Inv ttl s)
    (there : s.requests[r]? = some req) (taken : requestStep ttl s r req a = some t) : Inv ttl t := by
  have answered := inv.requests req (List.mem_of_getElem? there)
  cases a with
  | lookUp _ =>
    simp only [requestStep] at taken
    split at taken <;> cases taken
    · rename_i session _ found
      obtain ⟨u, member, hash, read⟩ := lookup_some found
      obtain ⟨id, principalId, lastSeenAt, expires, _, p, at_, code⟩ := record_some read
      refine quiet_requests inv (set_request ⟨?_, ?_, ?_⟩)
      · intro own is
        cases is
        obtain ⟨_, c, mine, since, got, until_⟩ := inv.minted.session u member
        refine ⟨c, mine, since, ?_, expires.trans until_⟩
        rw [id, principalId, ← hash]
        exact got
      · intro own is
        cases is
        exact ⟨p, by rw [principalId]; exact at_, code⟩
      · intro v here same
        have one := session_unique inv here member (same.trans id)
        rw [one, lastSeenAt]
    · refine quiet_requests inv (set_request ⟨?_, ?_, trivial⟩)
      · intro own is
        cases is
      · intro own is
        cases is
  | check _ =>
    simp only [requestStep] at taken
    split at taken <;> cases taken
    rename_i session own
    obtain ⟨backed, named, stands⟩ := answered
    unfold Stands at stands
    rw [own] at stands
    rw [own] at backed named
    by_cases over_ : isExpired ttl s.now session = true
    · rw [if_pos over_]
      refine quiet_requests inv (set_request ⟨?_, ?_, trivial⟩)
      · intro _ is
        cases is
      · intro _ is
        cases is
    · rw [if_neg over_]
      simp only [isExpired, Bool.or_eq_true, decide_eq_true_eq, not_or, not_le] at over_
      cases touch : needsTouch s.now session.lastSeenAt with
      | true => exact quiet_requests inv (set_request ⟨backed, named, Int.le_refl _, over_.1, over_.2⟩)
      | false =>
        refine quiet_requests inv (set_request ⟨backed, named, over_.1, over_.2, ?_⟩)
        intro u member same
        have fresh := fresh_of_untouched touch
        have seen := stands u member same
        dsimp only
        omega
  | touch _ =>
    simp only [requestStep] at taken
    split at taken <;> cases taken
    rename_i session own
    obtain ⟨backed, named, stands⟩ := answered
    unfold Stands at stands
    rw [own] at stands
    rw [own] at backed named
    refine touch_keeps inv rfl rfl rfl rfl rfl (set_request fun later => ?_)
    refine ⟨fun session is => backed_later later (backed session is), named, stands.2.1, stands.2.2, ?_⟩
    intro u member same
    obtain ⟨v, _, rfl⟩ := List.mem_map.mp member
    have touched : (if v.id = session.id then { v with lastSeenAt := s.now } else v).lastSeenAt =
        s.now := by
      split at same
      · rename_i mine
        rw [if_pos mine]
      · rename_i other
        exact absurd same other
    rw [touched]
    have before := stands.1
    simp only [TOUCH_INTERVAL_SECONDS, SECOND]
    omega
  | _ => cases taken

theorem modify_codes {change : Principal → Principal} (same : ∀ p, SamePrincipal p (change p))
    (principals : List Principal) (i : Nat) :
    (principals.modify i change).map Principal.code = principals.map Principal.code := by
  refine List.ext_getElem? fun j => ?_
  rw [List.getElem?_map, List.getElem?_map, List.getElem?_modify]
  cases principals[j]? with
  | none => rfl
  | some p =>
    simp only [Option.map_eq_map, Option.map_some]
    split
    · rw [(same p).1]
    · rfl

theorem modify_subjects {change : Principal → Principal} (same : ∀ p, SamePrincipal p (change p))
    {principals : List Principal} (subjects : Unique Principal.externalSubject principals)
    (i : Nat) : Unique Principal.externalSubject (principals.modify i change) := by
  refine modify_unique subjects fun p _ k has => ?_
  rw [(same p).2.2] at has
  exact has

theorem append_codes {principals : List Principal} {p : Principal}
    (codes : (principals.map Principal.code).Nodup) (free : isTaken principals p.code = false) :
    ((principals ++ [p]).map Principal.code).Nodup := by
  rw [List.map_append, List.map_singleton]
  refine List.nodup_append.mpr ⟨codes, List.pairwise_singleton _ _, ?_⟩
  intro a there b new
  rw [List.mem_singleton.mp new]
  rintro rfl
  obtain ⟨q, member, same⟩ := List.mem_map.mp there
  have taken : isTaken principals p.code = true := by
    refine List.any_eq_true.mpr ⟨q, member, ?_⟩
    simpa using same
  rw [free] at taken
  cases taken

theorem insert_principal_row {principals next : List Principal} {code : String} {id : Nat}
    {identity : VerifiedIdentity} {displayName : Option String}
    (subjects : Unique Principal.externalSubject principals)
    (codes : (principals.map Principal.code).Nodup)
    (done : insertPrincipal principals code identity.subject displayName = .row next id) :
    Carried principals next ∧ Unique Principal.externalSubject next ∧
      (next.map Principal.code).Nodup ∧ Belongs next id identity := by
  unfold insertPrincipal at done
  split at done
  · rename_i found
    split at done <;> cases done
    rename_i open_
    obtain ⟨bound, own, _⟩ := List.findIdx?_eq_some_iff_getElem.mp found
    rw [List.getElem?_eq_getElem bound] at open_
    have human : principals[id].principalType = .human := by
      simpa using (Bool.and_eq_true_iff.mp open_).2
    have same : ∀ p : Principal, SamePrincipal p { p with displayName } := fun _ => ⟨rfl, rfl, rfl⟩
    refine ⟨carried_modify same id, modify_subjects same subjects id, ?_, ?_⟩
    · rw [modify_codes same]
      exact codes
    · refine belongs_carried (carried_modify same id) ?_
      exact ⟨principals[id], List.getElem?_eq_getElem bound, by simpa using own, human⟩
  · rename_i absent
    split at done
    · cases done
    · rename_i free
      cases done
      refine ⟨carried_append _ _, ?_, append_codes codes (Bool.not_eq_true _ |>.mp free), ?_⟩
      · refine List.pairwise_append.mpr ⟨subjects, List.pairwise_singleton _ _, ?_⟩
        intro p member q new k has own
        rw [List.mem_singleton.mp new, Option.mem_def] at own
        cases own
        have none_ := List.findIdx?_eq_none_iff.mp absent p member
        simp only [decide_eq_false_iff_not] at none_
        exact none_ has
      · exact ⟨_, List.getElem?_concat_length, rfl, rfl⟩

theorem find_subject_some {principals : List Principal} {identity : VerifiedIdentity} {id : Nat}
    (found : findSubject principals identity.subject = some id) :
    Belongs principals id identity := by
  obtain ⟨bound, own, _⟩ := List.findIdx?_eq_some_iff_getElem.mp found
  simp only [Principal.open_, Bool.and_eq_true, decide_eq_true_eq] at own
  exact ⟨principals[id], List.getElem?_eq_getElem bound, own.1, own.2.2⟩

theorem sign_in_step_keeps {c : Nat} {call : SignIn} {a : Action} (inv : Inv ttl s)
    (there : s.signIns[c]? = some call) (taken : signInStep ttl requiredClaim s c call a = some t) :
    Inv ttl t := by
  cases a with
  | find _ =>
    simp only [signInStep] at taken
    split at taken <;> cases taken
    · rename_i own found
      refine sign_in_keeps inv there (by rw [own]; rfl) rfl fun id is => ?_
      cases is
      exact find_subject_some found
    · rename_i own _
      refine sign_in_keeps inv there (by rw [own]; rfl) (by split <;> rfl) fun id is => ?_
      split at is <;> cases is
  | probe _ =>
    simp only [signInStep] at taken
    split at taken <;> cases taken
    rename_i own
    refine sign_in_keeps inv there (by rw [own]; rfl) (by split <;> rfl) fun id is => ?_
    split at is <;> cases is
  | provision _ =>
    simp only [signInStep] at taken
    split at taken
    · rename_i own
      split at taken <;> cases taken
      · rename_i done
        obtain ⟨carried, subjects, codes, belongs⟩ :=
          insert_principal_row inv.ids.subjects inv.ids.codes done
        refine sign_in_keeps (principals_keep inv carried subjects codes) there (by rw [own]; rfl) rfl
          fun id is => ?_
        cases is
        exact belongs
      · refine sign_in_keeps inv there (by rw [own]; rfl) rfl fun id is => ?_
        cases is
      · refine sign_in_keeps inv there (by rw [own]; rfl) rfl fun id is => ?_
        cases is
    · cases taken
  | createSession _ tokenHash =>
    simp only [signInStep] at taken
    split at taken
    · rename_i own
      split at taken <;> cases taken
      · rename_i done
        unfold OmsAccess.createSession at done
        split at done <;> cases done
        exact mint_keeps inv there own
      · refine sign_in_keeps inv there (by rw [own]; rfl) rfl fun id is => ?_
        cases is
    · cases taken
  | _ => cases taken

theorem socket_keeps {k : Nat} {socket : Socket} {a : Action} (inv : Inv ttl s)
    (taken : socketStep s k socket a = some t) : Inv ttl t := by
  have quiet : ∀ stage, Inv ttl (setSocket s k socket stage) := fun stage =>
    quiet_keeps inv (Int.le_refl _) rfl rfl rfl (fun u member => ⟨u, member, aged_refl _ u⟩)
      inv.minted.ids fun _ member => Or.inl member
  cases a with
  | keepalive _ =>
    simp only [socketStep] at taken
    split at taken <;> cases taken
    exact quiet _
  | keep _ =>
    simp only [socketStep] at taken
    split at taken
    · split at taken <;> cases taken <;> exact quiet _
    · cases taken
  | keepTouch _ =>
    simp only [socketStep] at taken
    split at taken <;> cases taken
    exact touch_keeps inv rfl rfl rfl rfl rfl fun _ member => Or.inl member
  | _ => cases taken

theorem logout_keeps {l : Nat} {out : Logout} {a : Action} (inv : Inv ttl s)
    (taken : logoutStep s l out a = some t) : Inv ttl t := by
  have quiet : ∀ stage, Inv ttl (setLogout s l out stage) := fun stage =>
    quiet_keeps inv (Int.le_refl _) rfl rfl rfl (fun u member => ⟨u, member, aged_refl _ u⟩)
      inv.minted.ids fun _ member => Or.inl member
  cases a with
  | logoutLookUp _ =>
    simp only [logoutStep] at taken
    split at taken <;> cases taken <;> exact quiet _
  | revoke _ =>
    simp only [logoutStep] at taken
    split at taken <;> cases taken
    exact revoke_keeps inv rfl rfl rfl rfl rfl rfl
  | _ => cases taken

theorem create_keeps {p : Principal} {principals : List Principal} (inv : Inv ttl s)
    (done : createPrincipal s.principals p = some principals) : Inv ttl { s with principals } := by
  unfold createPrincipal at done
  split at done
  · cases done
  · rename_i free
    have subjects := insert_unique inv.ids.subjects done
    obtain ⟨-, rfl⟩ := insert_some done
    exact principals_keep inv (carried_append _ _) subjects
      (append_codes inv.ids.codes (Bool.not_eq_true _ |>.mp free))

theorem step_keeps {a : Action} (inv : Inv ttl s) (taken : step ttl requiredClaim s a = some t) :
    Inv ttl t := by
  have alike : ∀ t : Access, t.now = s.now → t.drawn = s.drawn → t.principals = s.principals →
      t.signIns = s.signIns → t.sessions = s.sessions → t.requests = s.requests → Inv ttl t := by
    intro t clock drawn principals signIns sessions requests
    refine quiet_keeps inv (Int.le_of_eq clock.symm) drawn principals signIns ?_ ?_ ?_
    · intro u member
      rw [sessions] at member
      exact ⟨u, member, aged_refl _ u⟩
    · rw [sessions]
      exact inv.minted.ids
    · intro r member
      rw [requests] at member
      exact Or.inl member
  cases a with
  | pass now =>
    simp only [step] at taken
    split at taken <;> cases taken
    rename_i forward
    exact quiet_keeps inv forward rfl rfl rfl (fun u member => ⟨u, member, aged_refl _ u⟩)
      inv.minted.ids fun _ member => Or.inl member
  | createPrincipal p =>
    obtain ⟨principals, done, rfl⟩ := Option.map_eq_some_iff.mp taken
    exact create_keeps inv done
  | setStatus id status =>
    cases taken
    have same : ∀ p : Principal, SamePrincipal p { p with status } := fun _ => ⟨rfl, rfl, rfl⟩
    refine principals_keep inv (carried_modify same id) (modify_subjects same inv.ids.subjects id) ?_
    rw [modify_codes same]
    exact inv.ids.codes
  | signIn identity =>
    cases taken
    have later : Later s { s with signIns := s.signIns ++ [⟨identity, .finding⟩] } :=
      ⟨Int.le_refl _, Nat.le_refl _, carried_refl _, fun _ member _ => List.mem_append_left _ member,
        fun u member => Or.inr ⟨u, member, aged_refl _ u⟩⟩
    refine ⟨⟨inv.ids.subjects, inv.ids.codes, ?_⟩, ⟨?_, ?_, inv.minted.ids⟩, ?_⟩
    · intro c member id own
      rcases List.mem_append.mp member with old | new
      · exact inv.ids.belongs c old id own
      · rw [List.mem_singleton.mp new] at own
        cases own
    · exact fun u member => mints_aged later (inv.minted.session u member) (aged_refl _ u)
    · intro c member id p h since own
      rcases List.mem_append.mp member with old | new
      · exact inv.minted.drawn c old id p h since own
      · rw [List.mem_singleton.mp new] at own
        cases own
    · exact fun r member => answered_later inv later (inv.requests r member)
  | request tokenHash =>
    cases taken
    refine quiet_requests inv fun r member => ?_
    rcases List.mem_append.mp member with old | new
    · exact Or.inl old
    · rw [List.mem_singleton.mp new]
      refine Or.inr ⟨?_, ?_, trivial⟩
      · intro _ own
        cases own
      · intro _ own
        cases own
  | open_ tokenHash =>
    cases taken
    exact alike _ rfl rfl rfl rfl rfl rfl
  | logout tokenHash =>
    cases taken
    exact alike _ rfl rfl rfl rfl rfl rfl
  | find c | probe c | provision c | createSession c tokenHash =>
    obtain ⟨call, there, moved⟩ := Option.bind_eq_some_iff.mp taken
    exact sign_in_step_keeps inv there moved
  | lookUp r | check r | touch r =>
    obtain ⟨req, there, moved⟩ := Option.bind_eq_some_iff.mp taken
    exact request_keeps inv there moved
  | keepalive k | keep k | keepTouch k =>
    obtain ⟨socket, _, moved⟩ := Option.bind_eq_some_iff.mp taken
    exact socket_keeps inv moved
  | logoutLookUp l | revoke l =>
    obtain ⟨out, _, moved⟩ := Option.bind_eq_some_iff.mp taken
    exact logout_keeps inv moved
  | revokeAll id =>
    cases taken
    exact revoke_keeps inv rfl rfl rfl rfl rfl rfl
  | sweep =>
    cases taken
    refine quiet_keeps inv (Int.le_refl _) rfl rfl rfl ?_ ?_ fun _ member => Or.inl member
    · exact fun u member => ⟨u, List.mem_of_mem_filter member, aged_refl _ u⟩
    · exact inv.minted.ids.sublist List.filter_sublist

theorem start_inv (now : Int) : Inv ttl (.start now) where
  ids := ⟨List.Pairwise.nil, List.nodup_nil, by simp [Access.start]⟩
  minted := ⟨by simp [Access.start], by simp [Access.start], List.Pairwise.nil⟩
  requests := by simp [Access.start]

theorem belongs_one {principals : List Principal} {p q : Nat} {c d : VerifiedIdentity}
    (subjects : Unique Principal.externalSubject principals) (same : c.subject = d.subject)
    (left : Belongs principals p c) (right : Belongs principals q d) : p = q := by
  obtain ⟨a, here, own, _⟩ := left
  obtain ⟨b, there, other, _⟩ := right
  exact unique_id subjects here there (Option.mem_def.mpr own) (Option.mem_def.mpr (by rw [other, same]))

theorem inv_sound (inv : Inv ttl s) : Sound ttl s where
  authenticated := by
    intro r member session own
    obtain ⟨backed, _, stands⟩ := inv.requests r member
    obtain ⟨c, there, since, got, expires⟩ := backed session (by rw [own]; rfl)
    unfold Stands at stands
    rw [own] at stands
    refine ⟨c, there, since, got, inv.ids.belongs c there _ (by rw [got]; rfl), ?_, stands.2.1⟩
    rw [← expires]
    exact stands.1
  named := fun r member session own => (inv.requests r member).named session (by rw [own]; rfl)
  used := by
    intro r member session own
    have stands := (inv.requests r member).stands
    unfold Stands at stands
    rw [own] at stands
    exact stands.2.2
  one := by
    intro c here d there same p q left right
    exact belongs_one inv.ids.subjects same (inv.ids.belongs c here p left)
      (inv.ids.belongs d there q right)
  subjects := inv.ids.subjects
  codes := inv.ids.codes

/-- However sign-ins, requests, sockets, logouts, revocations and sweeps are interleaved,
    whoever is let in by a cookie is the human who signed in for it, within the times of
    the session. -/
theorem access_sound (ttl : SessionTtl) (requiredClaim : Option (String × String)) (now : Int)
    (acts : List Action) : Throughout (step ttl requiredClaim) (Sound ttl) (.start now) acts :=
  throughout_mono (fun _ => inv_sound)
    (throughout_keeps (fun _ _ _ inv taken => step_keeps inv taken) (start_inv now) acts)

end OmsAccessRuns
