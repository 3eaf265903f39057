import OpenOms.Systems.Access

/-!
A revoked session stays revoked: nothing a request, a socket or a touch under way does
lets its cookie in again.
-/
namespace OmsRevocation
open OmsAccess OmsAccessRuns Runs Lists

def Revoked (h : String) (s : Access) : Prop := ∀ u ∈ s.sessions, u.tokenHash = h → u.revoked = true

/-- Tokens are drawn at random: this one is not drawn again. -/
def Undrawn (h : String) (_ : Access) : Action → Prop
  | .createSession _ tokenHash => tokenHash ≠ h
  | _ => True

instance (h : String) (s : Access) : DecidablePred (Undrawn h s) := fun a => by
  cases a <;> unfold Undrawn <;> infer_instance

def Refused (h : String) (i : Nat) (s : Access) : Prop :=
  ∀ r, s.requests[i]? = some r → r.tokenHash = h → r.stage.session = none

def SocketStage.session : SocketStage → Option SessionRecord
  | .found session => session
  | .touching session => some session
  | _ => none

def Silent (h : String) (k : Nat) (s : Access) : Prop :=
  ∀ socket, s.sockets[k]? = some socket → socket.tokenHash = h →
    SocketStage.session socket.stage = none

structure Out (h : String) (i k : Nat) (s : Access) : Prop where
  revoked : Revoked h s
  refused : Refused h i s
  silent : Silent h k s

variable {ttl : SessionTtl} {requiredClaim : Option (String × String)} {s t : Access} {h : String}
  {i k : Nat}

theorem lookup_none (revoked : Revoked h s) : lookupSession s.principals s.sessions h = none := by
  cases found : lookupSession s.principals s.sessions h with
  | none => rfl
  | some session =>
    obtain ⟨u, member, hash, read⟩ := lookup_some found
    obtain ⟨_, _, _, _, live, _⟩ := record_some read
    rw [revoked u member hash] at live
    cases live

theorem touched_revoked {id : Nat} {now : Int} (revoked : Revoked h s) :
    Revoked h { s with sessions := touchSession s.sessions id now } := by
  intro u member
  obtain ⟨v, there, rfl⟩ := List.mem_map.mp member
  split
  · exact revoked v there
  · exact revoked v there

theorem more_revoked {p : UserSession → Prop} [DecidablePred p] (revoked : Revoked h s) :
    ∀ u ∈ s.sessions.map fun u => if p u then { u with revoked := true } else u,
      u.tokenHash = h → u.revoked = true := by
  intro u member
  obtain ⟨v, there, rfl⟩ := List.mem_map.mp member
  split
  · exact fun _ => rfl
  · exact revoked v there

theorem set_refused {r : Nat} {req : Request} {requests : List Request}
    (refused : ∀ x, requests[i]? = some x → x.tokenHash = h → x.stage.session = none)
    (new : r = i → req.tokenHash = h → req.stage.session = none) :
    ∀ x, (requests.set r req)[i]? = some x → x.tokenHash = h → x.stage.session = none := by
  intro x there
  rcases at_set there with ⟨rfl, rfl⟩ | ⟨_, old⟩
  · exact new rfl
  · exact refused x old

theorem set_silent {j : Nat} {socket : Socket} {sockets : List Socket}
    (silent : ∀ x, sockets[k]? = some x → x.tokenHash = h → SocketStage.session x.stage = none)
    (new : j = k → socket.tokenHash = h → SocketStage.session socket.stage = none) :
    ∀ x, (sockets.set j socket)[k]? = some x → x.tokenHash = h →
      SocketStage.session x.stage = none := by
  intro x there
  rcases at_set there with ⟨rfl, rfl⟩ | ⟨_, old⟩
  · exact new rfl
  · exact silent x old

theorem request_out {r : Nat} {req : Request} {a : Action} (out : Out h i k s)
    (there : s.requests[r]? = some req) (taken : requestStep ttl s r req a = some t) :
    Out h i k t := by
  have before : r = i → req.tokenHash = h → req.stage.session = none := by
    rintro rfl
    exact out.refused req there
  cases a with
  | lookUp _ =>
    simp only [requestStep] at taken
    split at taken <;> cases taken
    · rename_i found
      refine ⟨out.revoked, set_refused out.refused fun _ own => ?_, out.silent⟩
      rw [show req.tokenHash = h from own, lookup_none out.revoked] at found
      cases found
    · exact ⟨out.revoked, set_refused out.refused fun _ _ => rfl, out.silent⟩
  | check _ =>
    simp only [requestStep] at taken
    split at taken <;> cases taken
    rename_i own
    refine ⟨out.revoked, set_refused out.refused fun same mine => ?_, out.silent⟩
    have none_ := before same mine
    rw [own] at none_
    cases none_
  | touch _ =>
    simp only [requestStep] at taken
    split at taken <;> cases taken
    rename_i own
    refine ⟨touched_revoked out.revoked, set_refused out.refused fun same mine => ?_, out.silent⟩
    have none_ := before same mine
    rw [own] at none_
    cases none_
  | _ => cases taken

theorem socket_out {j : Nat} {socket : Socket} {a : Action} (out : Out h i k s)
    (there : s.sockets[j]? = some socket) (taken : socketStep s j socket a = some t) :
    Out h i k t := by
  have before : j = k → socket.tokenHash = h → SocketStage.session socket.stage = none := by
    rintro rfl
    exact out.silent socket there
  cases a with
  | keepalive _ =>
    simp only [socketStep] at taken
    split at taken <;> cases taken
    refine ⟨out.revoked, out.refused, set_silent out.silent fun _ own => ?_⟩
    rw [show socket.tokenHash = h from own]
    exact lookup_none out.revoked
  | keep _ =>
    simp only [socketStep] at taken
    split at taken
    · rename_i own
      split at taken <;> cases taken
      · refine ⟨out.revoked, out.refused, set_silent out.silent fun same mine => ?_⟩
        have none_ := before same mine
        rw [own] at none_
        cases none_
      · exact ⟨out.revoked, out.refused, set_silent out.silent fun _ _ => rfl⟩
    · cases taken
  | keepTouch _ =>
    simp only [socketStep] at taken
    split at taken <;> cases taken
    exact ⟨touched_revoked out.revoked, out.refused, set_silent out.silent fun _ _ => rfl⟩
  | _ => cases taken

theorem sign_in_out {c : Nat} {call : SignIn} {a : Action} (out : Out h i k s)
    (undrawn : Undrawn h s a) (taken : signInStep ttl requiredClaim s c call a = some t) :
    Out h i k t := by
  obtain ⟨revoked, refused, silent⟩ := out
  cases a with
  | find _ =>
    simp only [signInStep] at taken
    split at taken <;> cases taken <;> exact ⟨revoked, refused, silent⟩
  | probe _ =>
    simp only [signInStep] at taken
    split at taken <;> cases taken
    exact ⟨revoked, refused, silent⟩
  | provision _ =>
    simp only [signInStep] at taken
    split at taken
    · split at taken <;> cases taken <;> exact ⟨revoked, refused, silent⟩
    · cases taken
  | createSession _ tokenHash =>
    simp only [signInStep] at taken
    split at taken
    · split at taken <;> cases taken
      · rename_i done
        unfold OmsAccess.createSession at done
        split at done <;> cases done
        refine ⟨?_, refused, silent⟩
        intro u member own
        rcases List.mem_append.mp member with old | new
        · exact revoked u old own
        · rw [List.mem_singleton.mp new] at own
          exact absurd own undrawn
      · exact ⟨revoked, refused, silent⟩
    · cases taken
  | _ => cases taken

theorem logout_out {l : Nat} {logout : Logout} {a : Action} (out : Out h i k s)
    (taken : logoutStep s l logout a = some t) : Out h i k t := by
  obtain ⟨revoked, refused, silent⟩ := out
  cases a with
  | logoutLookUp _ =>
    simp only [logoutStep] at taken
    split at taken <;> cases taken <;> exact ⟨revoked, refused, silent⟩
  | revoke _ =>
    simp only [logoutStep] at taken
    split at taken <;> cases taken
    exact ⟨more_revoked revoked, refused, silent⟩
  | _ => cases taken

theorem step_out {a : Action} (out : Out h i k s) (undrawn : Undrawn h s a)
    (taken : step ttl requiredClaim s a = some t) : Out h i k t := by
  cases a with
  | pass now =>
    simp only [step] at taken
    split at taken <;> cases taken
    exact ⟨out.revoked, out.refused, out.silent⟩
  | createPrincipal p =>
    obtain ⟨principals, _, rfl⟩ := Option.map_eq_some_iff.mp taken
    exact ⟨out.revoked, out.refused, out.silent⟩
  | setStatus id status =>
    cases taken
    exact ⟨out.revoked, out.refused, out.silent⟩
  | signIn identity =>
    cases taken
    exact ⟨out.revoked, out.refused, out.silent⟩
  | request tokenHash =>
    cases taken
    refine ⟨out.revoked, ?_, out.silent⟩
    intro r there own
    rcases at_append there with ⟨_, old⟩ | ⟨_, rfl⟩
    · exact out.refused r old own
    · rfl
  | open_ tokenHash =>
    cases taken
    refine ⟨out.revoked, out.refused, ?_⟩
    intro socket there own
    rcases at_append there with ⟨_, old⟩ | ⟨_, rfl⟩
    · exact out.silent socket old own
    · rfl
  | logout tokenHash =>
    cases taken
    exact ⟨out.revoked, out.refused, out.silent⟩
  | find c | probe c | provision c | createSession c tokenHash =>
    obtain ⟨call, _, moved⟩ := Option.bind_eq_some_iff.mp taken
    exact sign_in_out out undrawn moved
  | lookUp r | check r | touch r =>
    obtain ⟨req, there, moved⟩ := Option.bind_eq_some_iff.mp taken
    exact request_out out there moved
  | keepalive j | keep j | keepTouch j =>
    obtain ⟨socket, there, moved⟩ := Option.bind_eq_some_iff.mp taken
    exact socket_out out there moved
  | logoutLookUp l | revoke l =>
    obtain ⟨logout, _, moved⟩ := Option.bind_eq_some_iff.mp taken
    exact logout_out out moved
  | revokeAll id =>
    cases taken
    exact ⟨more_revoked out.revoked, out.refused, out.silent⟩
  | sweep =>
    cases taken
    exact ⟨fun u member => out.revoked u (List.mem_of_mem_filter member), out.refused, out.silent⟩

/-- Once a session is revoked, no request that had yet to look it up is ever let in by its
    cookie and no socket that had touches it, whatever is under way and whoever is
    enabled again. -/
theorem revocation_final (ttl : SessionTtl) (requiredClaim : Option (String × String))
    (s : Access) (h : String) (i k : Nat) (out : Out h i k s) (acts : List Action)
    (undrawn : Along (step ttl requiredClaim) (Undrawn h) s acts) :
    Throughout (step ttl requiredClaim) (Out h i k) s acts :=
  throughout_along (fun _ _ _ out ok taken => step_out out ok taken) out undrawn

def halfAnHour : SessionTtl := ⟨1800 * SECOND, 43200 * SECOND⟩

def trader : VerifiedIdentity := ⟨"sub-1", some "Ada", some "ada@desk.example", []⟩

def signedOut : Access :=
  (run (step halfAnHour none) (.start 0)
    [.signIn trader, .find 0, .probe 0, .provision 0, .createSession 0 "hash", .request "hash",
      .lookUp 0, .logout "hash", .logoutLookUp 0, .revoke 0, .request "hash"]).getD (.start 0)

theorem signed_out_asked :
    signedOut.requests[1]? = some ⟨"hash", signedOut.now, .asked⟩ := by decide +kernel

theorem signed_out_unopened : signedOut.sockets[0]? = none := by decide +kernel

theorem signed_out_stays_out : Throughout (step halfAnHour none) (Out "hash" 1 0) signedOut
    [.check 0, .pass (61 * SECOND), .lookUp 1, .open_ "hash", .keepalive 0, .keep 0] :=
  revocation_final halfAnHour none signedOut "hash" 1 0
    ⟨by unfold Revoked; decide +kernel, fun r there _ => by cases signed_out_asked ▸ there; rfl,
      fun socket there _ => by cases signed_out_unopened ▸ there⟩ _ (by decide +kernel)

end OmsRevocation
