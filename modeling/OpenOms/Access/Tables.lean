import OpenOms.Library.PartialIndex
import Mathlib.Data.List.DropRight
import Mathlib.Data.List.Lemmas

/-!
Who may sign in and as whom: the principals, the browser sessions and the statements
on them. A principal's id is its place in the table. Times are in microseconds.
-/
namespace OmsAccess
open PartialIndex

inductive PrincipalType where
  | human
  | service
  | strategy
  | desk
  deriving DecidableEq, Repr

inductive PrincipalStatus where
  | active
  | disabled
  deriving DecidableEq, Repr

structure Principal where
  code : String
  principalType : PrincipalType
  externalSubject : Option String
  displayName : Option String
  status : PrincipalStatus
  deriving DecidableEq, Repr

def Principal.open_ (p : Principal) : Bool := p.status = .active && p.principalType = .human

inductive ClaimValue where
  | text (s : String)
  | texts (values : List (Option String))
  | other
  deriving DecidableEq, Repr

structure VerifiedIdentity where
  subject : String
  displayName : Option String
  email : Option String
  claims : List (String × ClaimValue)
  deriving DecidableEq, Repr

def claimSatisfies (claims : List (String × ClaimValue)) (claimName requiredValue : String) : Bool :=
  match claims.lookup claimName with
  | some (.text s) => s = requiredValue
  | some (.texts values) => values.any fun v => v = some requiredValue
  | _ => false

def admitted (requiredClaim : Option (String × String)) (identity : VerifiedIdentity) : Bool :=
  requiredClaim.all fun (name, value) => claimSatisfies identity.claims name value

def slugStep (out : List Char) (c : Char) : List Char :=
  if c.isAlphanum then out ++ [c.toLower]
  else if out ≠ [] ∧ out.getLast? ≠ some '-' then out ++ ['-']
  else out

def slugify (input : String) : String :=
  String.ofList ((input.toList.foldl slugStep []).rdropWhile (· = '-'))

def codeSeed (identity : VerifiedIdentity) : String :=
  let part := identity.email.map fun email => String.ofList (email.toList.takeWhile (· ≠ '@'))
  ((part.filter (· ≠ "")).or identity.displayName).getD identity.subject

def codeBase (identity : VerifiedIdentity) : String :=
  let base := slugify (codeSeed identity)
  if base = "" then "principal" else base

def candidate (base : String) (suffix : Nat) : String :=
  if suffix = 1 then base else base ++ "-" ++ toString suffix

def findSubject (principals : List Principal) (subject : String) : Option Nat :=
  principals.findIdx? fun p => p.externalSubject = some subject && p.open_

def isTaken (principals : List Principal) (code : String) : Bool :=
  principals.any fun p => p.code = code

inductive Inserted where
  | row (principals : List Principal) (id : Nat)
  -- the subject is a row's that may not sign in
  | refused
  -- another subject was given the code since it was found free
  | codeTaken

/-- The insert, which on a conflict over the subject renames the row there if that may
    sign in. -/
def insertPrincipal (principals : List Principal) (code subject : String)
    (displayName : Option String) : Inserted :=
  match principals.findIdx? fun p => p.externalSubject = some subject with
  | some id =>
    if (principals[id]?.map Principal.open_).getD false then
      .row (principals.modify id fun p => { p with displayName }) id
    else .refused
  | none =>
    if isTaken principals code then .codeTaken
    else .row (principals ++ [⟨code, .human, some subject, displayName, .active⟩]) principals.length

def createPrincipal (principals : List Principal) (p : Principal) : Option (List Principal) :=
  if isTaken principals p.code then none else insert Principal.externalSubject principals p

def SECOND : Int := 1000000

def TOUCH_INTERVAL_SECONDS : Int := 60

structure SessionTtl where
  idle : Int
  absolute : Int
  deriving DecidableEq, Repr

structure UserSession where
  id : Nat
  principalId : Nat
  tokenHash : String
  lastSeenAt : Int
  absoluteExpiresAt : Int
  revoked : Bool
  deriving DecidableEq, Repr

structure SessionRecord where
  id : Nat
  principalId : Nat
  principalCode : String
  lastSeenAt : Int
  absoluteExpiresAt : Int
  deriving DecidableEq, Repr

def isExpired (ttl : SessionTtl) (now : Int) (r : SessionRecord) : Bool :=
  now ≥ r.absoluteExpiresAt || now - r.lastSeenAt ≥ ttl.idle

def needsTouch (now lastSeenAt : Int) : Bool :=
  (now - lastSeenAt).tdiv SECOND > TOUCH_INTERVAL_SECONDS

def createSession (sessions : List UserSession) (ttl : SessionTtl) (id principalId : Nat)
    (tokenHash : String) (now : Int) : Option (List UserSession) :=
  if sessions.any fun s => s.tokenHash = tokenHash then none
  else some (sessions ++ [⟨id, principalId, tokenHash, now, now + ttl.absolute, false⟩])

def record (principals : List Principal) (s : UserSession) : Option SessionRecord :=
  match principals[s.principalId]? with
  | some p =>
    if !s.revoked && p.open_ then
      some ⟨s.id, s.principalId, p.code, s.lastSeenAt, s.absoluteExpiresAt⟩
    else none
  | none => none

def lookupSession (principals : List Principal) (sessions : List UserSession) (tokenHash : String) :
    Option SessionRecord :=
  (sessions.find? fun s => s.tokenHash = tokenHash).bind (record principals)

def touchSession (sessions : List UserSession) (id : Nat) (now : Int) : List UserSession :=
  sessions.map fun s => if s.id = id then { s with lastSeenAt := now } else s

def revokeSession (sessions : List UserSession) (id : Nat) : List UserSession :=
  sessions.map fun s => if s.id = id then { s with revoked := true } else s

def revokeAllForPrincipal (sessions : List UserSession) (principalId : Nat) : List UserSession :=
  sessions.map fun s => if s.principalId = principalId then { s with revoked := true } else s

def sweepExpired (sessions : List UserSession) (now : Int) : List UserSession :=
  sessions.filter fun s => !(s.absoluteExpiresAt < now)

def keepaliveTouches (session : Option SessionRecord) (now : Int) : Bool :=
  session.any fun s => now < s.absoluteExpiresAt

end OmsAccess
