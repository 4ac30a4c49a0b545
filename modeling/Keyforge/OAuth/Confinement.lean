/-
What a token request saw before it was answered with tokens. Each grant of the token endpoint makes the
same checks: the user, the source session, the consent, the user's rules and the audience. Here they are
read off the paths of the handlers, whatever happens between their reads.
-/
import Keyforge.Do.Chain
import Keyforge.OAuth.Checks
import Keyforge.OAuth.Granted

namespace Keyforge.OAuth

open Lib Db Tokens Auth

/-! ## What is granted -/

/-- A live session of the user was read, and the clock after it had not reached its end. -/
def SawSession (userId sessionId : String) (tr : Steps) : Prop :=
  ∃ s : SessionRow, Saw (fun db => db.sessions.get? sessionId = some s) tr ∧ s.userId = userId ∧ s.revokedAt = none ∧
    ∃ t ∈ tr, t.2.nowSeconds < s.expiresAt

/-- Each check of a user grant passed on a database that was read: the user is enabled, the rules allow the
client these scopes at the audience, and the consent under the client's metadata covers them. -/
structure UserGranted (env : Env) (client : ClientRow) (userId resource : String) (scopes : List String) (tr : Steps) :
    Prop where
  audience : AudienceGranted client resource scopes tr
  user : Saw (fun db => ∃ u, db.users.get? userId = some u ∧ u.disabled = false) tr
  policy : Saw (fun db => userTokenAccess env ⟨userId, client.clientId, resource, scopes⟩ db = none) tr
  consent : Saw (fun db =>
    consentCovers scopes client.metadataFingerprint (db.consents.get? (userId, client.clientId, resource)) = true) tr

/-- The access token is for what was granted. -/
structure UserToken (env : Env) (client : ClientRow) (token : AccessToken) (tr : Steps) : Prop where
  clientId : token.clientId = client.clientId
  granted : UserGranted env client token.sub token.aud (parseScopeString (some token.scope)) tr

section

variable {env : Env} {client : ClientRow} {userId resource : String} {scopes : List String} {tr tr' : Steps}

theorem SawSession.sublist {sessionId : String} (h : SawSession userId sessionId tr) (hsub : tr.Sublist tr') :
    SawSession userId sessionId tr' := by
  obtain ⟨s, hsaw, huser, hrevoked, t, ht, hlt⟩ := h
  exact ⟨s, hsaw.sublist hsub, huser, hrevoked, t, hsub.subset ht, hlt⟩

theorem UserGranted.sublist (h : UserGranted env client userId resource scopes tr) (hsub : tr.Sublist tr') :
    UserGranted env client userId resource scopes tr' :=
  ⟨h.audience.sublist hsub, h.user.sublist hsub, h.policy.sublist hsub, h.consent.sublist hsub⟩

theorem UserToken.sublist {token : AccessToken} (h : UserToken env client token tr) (hsub : tr.Sublist tr') :
    UserToken env client token tr' :=
  ⟨h.clientId, h.granted.sublist hsub⟩

end

/-! ## The five reads -/

section

variable {env : Env} {client : ClientRow} {userId resource : String} {scopes : List String}

theorem getSessionById_ends {sessionId : String} :
    endsE (getSessionById sessionId) (fun found tr => ∀ s, found = some s → SawSession s.userId sessionId tr)
      fun _ _ => True := by
  rw [getSessionById, endsE_bind]
  refine endsE_select (fun w dt => ?_) fun _ => trivial
  cases hrow : w.db.sessions.get? sessionId with
  | none => exact fun s hs => by cases hs
  | some row =>
    refine endsE_ite (fun _ s hs => by cases hs) fun hrevoked => ?_
    rw [endsE_bind]
    refine endsE_clock fun w' dt' => ?_
    rw [endsE_pure]
    intro s hs
    split at hs
    · cases hs
    · rename_i hlive
      cases hs
      refine ⟨row, .head hrow, rfl, not_not.1 hrevoked, (w', w'.tick dt'), ?_, not_le.1 hlive⟩
      exact List.mem_cons_of_mem _ List.mem_cons_self

/-- The audience that is resolved is the one asked for. -/
theorem resolveResourceRecord_requested :
    endsE (resolveResourceRecord env client (some resource)) (fun r _ => r.resourceUri = resource) fun _ _ => True := by
  have hlast : Lasting fun (r : ResourceRow) (_ : Steps) => r.resourceUri = resource := fun _ _ _ _ h => h
  unfold resolveResourceRecord
  split
  · trivial
  · rename_i requested hrequested
    obtain ⟨hrequested, -⟩ := Option.filter_eq_some_iff.1 hrequested
    cases hrequested
    refine endsE_skip hlast (fun _ _ => trivial) fun _ => ?_
    rw [endsE_bind]
    refine endsE_select (fun w dt => ?_) fun _ => trivial
    cases hfound : (w.db.resources.get? resource).filter (·.enabled) with
    | none => exact endsE_ite (fun _ => rfl) fun _ => trivial
    | some r =>
      obtain ⟨hget, -⟩ := Option.filter_eq_some_iff.1 hfound
      have hr : r.resourceUri = resource := (Table.get?_eq_some.1 hget).2
      refine endsE_skip hlast (fun _ _ => trivial) fun _ => endsE_skip hlast (fun _ _ => trivial) fun _ => ?_
      refine endsE_ite (fun _ => endsE_ite (fun _ => ?_) fun _ => ?_) fun _ => hr
      · exact endsE_skip hlast (fun _ _ => trivial) fun _ => endsE_skip hlast (fun _ _ => trivial) fun _ => hr
      · exact endsE_skip hlast (fun _ _ => trivial) fun _ => endsE_skip hlast (fun _ _ => trivial) fun _ => hr

theorem resolveResourceForScopes_requested :
    endsE (resolveResourceForScopes env client (some resource) scopes) (fun r _ => r = resource) fun _ _ => True := by
  have hlast : Lasting fun (r : String) (_ : Steps) => r = resource := fun _ _ _ _ h => h
  rw [resolveResourceForScopes, endsE_bind]
  refine endsE_imp (fun r tr hr => ?_) (fun _ _ _ => trivial) _ resolveResourceRecord_requested
  subst hr
  refine endsE_ite (fun _ => rfl) fun _ => ?_
  exact endsE_skip hlast (fun _ _ => trivial) fun _ => endsE_skip hlast (fun _ _ => trivial) fun _ => rfl

/-- What the checks answer, and what they read to answer so. -/
structure Checked (env : Env) (client : ClientRow) (userId : String) (sessionId : Option String) (resource : String)
    (scopes : List String) (checks : GrantChecks) (tr : Steps) : Prop where
  user : ∀ u, checks.user = some u → Saw (fun db => db.users.get? userId = some u) tr
  session : ∀ id s, sessionId = some id → checks.sourceSession = some s → SawSession s.userId id tr
  consent : checks.consentCovered = true → Saw (fun db =>
    consentCovers scopes client.metadataFingerprint (db.consents.get? (userId, client.clientId, resource)) = true) tr
  policy : checks.access = none → Saw (fun db => userTokenAccess env ⟨userId, client.clientId, resource, scopes⟩ db = none) tr
  audience : ∀ r, checks.resource = .ok r → AudienceGranted client resource scopes tr

theorem consentCoversScopes_ends {fingerprint : Option String} (hyolo : env.yolo = false) :
    endsE (consentCoversScopes env userId client.clientId resource scopes fingerprint)
      (fun covered tr => covered = true → Saw (fun db =>
        consentCovers scopes fingerprint (db.consents.get? (userId, client.clientId, resource)) = true) tr)
      fun _ _ => True := by
  rw [consentCoversScopes, if_neg (by simp [hyolo]), endsE_bind]
  exact endsE_select (fun w dt hcovered => .head hcovered) fun _ => trivial

/-- The session of a grant is read if the grant has one. -/
theorem sessionRead_ends (sessionId : Option String) {p : App (Option SessionRecord)}
    (hnone : sessionId = none → p = pure none) (hsome : ∀ id, sessionId = some id → p = getSessionById id) :
    endsE p (fun found tr => ∀ id s, sessionId = some id → found = some s → SawSession s.userId id tr) fun _ _ => True := by
  cases sessionId with
  | none =>
    rw [hnone rfl]
    exact fun id s hid => by cases hid
  | some sessionId =>
    rw [hsome sessionId rfl]
    refine endsE_imp (fun found tr h id s hid hs => ?_) (fun _ _ _ => trivial) _ getSessionById_ends
    cases hid
    exact h s hs

theorem grantChecks_ends (hyolo : env.yolo = false) {sessionId : Option String} :
    endsE (grantChecks env client userId sessionId resource scopes)
      (Checked env client userId sessionId resource scopes) fun _ _ => True := by
  have hX : Lasting fun (_ : Failure) (_ : Steps) => True := fun _ _ _ _ _ => trivial
  have huser : endsE (getUserById userId) (fun found tr => ∀ u, found = some u → Saw (fun db => db.users.get? userId = some u) tr)
      fun _ _ => True := endsE_select (fun w dt u hu => .head hu) fun _ => trivial
  have hpolicy : endsE (evaluateUserTokenAccess env ⟨userId, client.clientId, resource, scopes⟩)
      (fun denial tr => denial = none →
        Saw (fun db => userTokenAccess env ⟨userId, client.clientId, resource, scopes⟩ db = none) tr) fun _ _ => True := by
    rw [evaluateUserTokenAccess, if_neg (by simp [hyolo])]
    exact endsE_select (fun w dt hnone => .head hnone) fun _ => trivial
  have haudience : endsE (settled (resolveResourceForScopes env client (some resource) scopes))
      (fun r tr => ∀ resolved, r = .ok resolved → AudienceGranted client resource scopes tr) fun _ _ => True := by
    refine endsE_settled.2 (endsE_iff.2 ⟨fun tr resolved hpath => ?_, fun tr x hpath r hr => by cases hr⟩)
    have hrequested := (endsE_iff.1 resolveResourceForScopes_requested).1 tr resolved hpath
    have hgranted := (endsE_iff.1 (resolveResourceForScopes_ends hyolo)).1 tr resolved hpath
    subst hrequested
    exact fun _ _ => hgranted
  unfold grantChecks
  rw [endsE_bind]
  refine endsE_imp (fun checks tr h => ?_) (fun _ _ _ => trivial) _
    (endsE_all ?_ ?_ hX huser (endsE_all ?_ ?_ hX
      (sessionRead_ends sessionId (by rintro rfl; rfl) (by rintro id rfl; rfl)) (endsE_all ?_ ?_ hX
      (consentCoversScopes_ends hyolo)
      (endsE_all ?_ ?_ hX hpolicy haudience))))
  · obtain ⟨h1, h2, h3, h4, h5⟩ := h
    rw [endsE_pure, List.append_nil]
    exact ⟨h1, h2, h3, h4, h5⟩
  · exact fun found tr tr' hsub h u hu => (h u hu).sublist hsub
  · exact fun checks tr tr' hsub h => ⟨fun id s hid hs => (h.1 id s hid hs).sublist hsub, fun hc => (h.2.1 hc).sublist hsub,
      fun hn => (h.2.2.1 hn).sublist hsub, fun r hr => (h.2.2.2 r hr).sublist hsub⟩
  · exact fun found tr tr' hsub h id s hid hs => (h id s hid hs).sublist hsub
  · exact fun checks tr tr' hsub h => ⟨fun hc => (h.1 hc).sublist hsub, fun hn => (h.2.1 hn).sublist hsub,
      fun r hr => (h.2.2 r hr).sublist hsub⟩
  · exact fun covered tr tr' hsub h hc => (h hc).sublist hsub
  · exact fun checks tr tr' hsub h => ⟨fun hn => (h.1 hn).sublist hsub, fun r hr => (h.2 r hr).sublist hsub⟩
  · exact fun denial tr tr' hsub h hn => (h hn).sublist hsub
  · exact fun r tr tr' hsub h resolved hr => (h resolved hr).sublist hsub

/-- Checks that all passed. -/
theorem Checked.granted {sessionId : Option String} {checks : GrantChecks} {tr : Steps} {user : UserRow} {r : String}
    (h : Checked env client userId sessionId resource scopes checks tr)
    (huser : checks.user.filter (!·.disabled) = some user) (hconsent : checks.consentCovered = true)
    (haccess : checks.access = none) (hresource : checks.resource = .ok r) :
    user.id = userId ∧ UserGranted env client userId resource scopes tr := by
  obtain ⟨hfound, henabled⟩ := Option.filter_eq_some_iff.1 huser
  have hsaw := h.user user hfound
  obtain ⟨t, -, hget⟩ := hsaw
  refine ⟨(Table.get?_eq_some.1 hget).2, h.audience r hresource, ?_, h.policy haccess, h.consent hconsent⟩
  refine (h.user user hfound).imp fun db hdb => ⟨user, hdb, ?_⟩
  simpa using henabled

end

/-! ## The grants -/

section

variable {env : Env} {client : ClientRow} {f secret grantId : String}

/-- The access token of a response is for what was asked to be issued. -/
theorem issueUserTokens_ends {input : IssueUserTokensInput} (haccess : input.accessValidated = true) :
    endsE (issueUserTokens env input f secret) (fun response _ => response.scope = input.scope ∧
      response.accessToken = ⟨input.user.id, input.resource, input.client.clientId, input.scope, some input.authTime,
        TOKEN_TTL.userAccessToken⟩) fun _ _ => True := by
  have hlast : Lasting fun (response : TokenResponse) (_ : Steps) => response.scope = input.scope ∧
      response.accessToken = ⟨input.user.id, input.resource, input.client.clientId, input.scope, some input.authTime,
        TOKEN_TTL.userAccessToken⟩ := fun _ _ _ _ h => h
  rw [issueUserTokens, haccess]
  dsimp only
  rw [Bool.not_true, if_neg Bool.false_ne_true, issueUserAccessToken, OAuth.signJwt, endsE_bind]
  refine endsE_query (fun w dt => ?_) fun _ => trivial
  refine endsE_skip hlast (fun _ _ => trivial) fun idToken => endsE_ite (fun _ => ?_) fun _ => ⟨rfl, rfl⟩
  exact endsE_skip hlast (fun _ _ => trivial) fun refresh => ⟨rfl, rfl⟩

variable (env client) in
theorem lasting_userToken : Lasting fun (response : TokenResponse) (tr : Steps) =>
    response.accessToken.scope = response.scope ∧ UserToken env client response.accessToken tr :=
  fun _ _ _ hsub h => ⟨h.1, h.2.sublist hsub⟩

/-- An issued access token, after checks that granted it. -/
theorem issueUserTokens_granted {input : IssueUserTokensInput} {tr : Steps} (haccess : input.accessValidated = true)
    (h : UserGranted env input.client input.user.id input.resource (parseScopeString (some input.scope)) tr) :
    endsE (issueUserTokens env input f secret) (fun response tr' => response.accessToken.scope = response.scope ∧
      UserToken env input.client response.accessToken (tr ++ tr')) fun _ _ => True := by
  refine endsE_imp (fun response tr' hresponse => ?_) (fun _ _ _ => trivial) _ (issueUserTokens_ends haccess)
  obtain ⟨hscope, htoken⟩ := hresponse
  rw [htoken, hscope]
  exact ⟨rfl, rfl, h.sublist (List.sublist_append_left tr tr')⟩

theorem exchangeGrant_ends (hyolo : env.yolo = false) {grant : Do.AuthorizationCodePayload} :
    endsE (exchangeGrant env client grant f secret grantId) (fun response tr =>
      response.accessToken.scope = response.scope ∧ UserToken env client response.accessToken tr ∧
        SawSession grant.userId grant.sessionId tr) fun _ _ => True := by
  have hlast : Lasting fun (response : TokenResponse) (tr : Steps) => response.accessToken.scope = response.scope ∧
      UserToken env client response.accessToken tr ∧ SawSession grant.userId grant.sessionId tr :=
    fun _ _ _ hsub h => ⟨h.1, h.2.1.sublist hsub, h.2.2.sublist hsub⟩
  rw [exchangeGrant, endsE_bind]
  refine endsE_imp (fun checks tr hchecks => ?_) (fun _ _ _ => trivial) _ (grantChecks_ends hyolo)
  split
  · trivial
  · rename_i user huser
    rw [endsE_bind, endsE_require]
    refine ⟨fun hsession => ?_, fun _ => trivial⟩
    rw [endsE_bind, endsE_require]
    refine ⟨fun hconsent => ?_, fun _ => trivial⟩
    split
    · trivial
    · trivial
    · rename_i haccess hresource
      obtain ⟨hid, hgranted⟩ := hchecks.granted huser hconsent haccess hresource
      obtain ⟨s, hs, hs'⟩ := (Option.any_eq_true _ _).1 hsession
      have hsaw : SawSession grant.userId grant.sessionId tr := by
        rw [← hid, ← of_decide_eq_true hs']
        exact hchecks.session _ s rfl hs
      rw [← hid] at hgranted
      rw [endsE_bind]
      refine endsE_imp (fun response tr' hresponse => ?_) (fun _ _ _ => trivial) _ (issueUserTokens_granted rfl hgranted)
      have hfinal : response.accessToken.scope = response.scope ∧ UserToken env client response.accessToken (tr ++ tr') ∧
          SawSession grant.userId grant.sessionId (tr ++ tr') :=
        ⟨hresponse.1, hresponse.2, hsaw.sublist (List.sublist_append_left tr tr')⟩
      have hlater := (hlast.append tr).append tr'
      refine endsE_skip hlater (fun _ _ => trivial) fun _ => endsE_skip hlater (fun _ _ => trivial) fun _ => ?_
      exact hlast response (by simp) hfinal

theorem handleAuthorizationCode_ends (hyolo : env.yolo = false) {form : AuthorizationCodeForm} :
    endsE (handleAuthorizationCode env client form f secret grantId) (fun response tr =>
      response.accessToken.scope = response.scope ∧ UserToken env client response.accessToken tr) fun _ _ => True := by
  unfold handleAuthorizationCode
  split
  · refine endsE_skip (lasting_userToken env client) (fun _ _ => trivial) fun consumed => ?_
    split
    · dsimp only
      refine endsE_ite (fun _ => endsE_skip (lasting_userToken env client) (fun _ _ => trivial) fun _ => ?_) fun _ => ?_
      · exact endsE_skip (lasting_userToken env client) (fun _ _ => trivial) fun _ => trivial
      · exact endsE_skip (lasting_userToken env client) (fun _ _ => trivial) fun _ => trivial
    · exact endsE_imp (fun response tr h => ⟨h.1, h.2.1⟩) (fun _ _ _ => trivial) _ (exchangeGrant_ends hyolo)
  · trivial

theorem issueDeviceTokens_granted (hyolo : env.yolo = false) {session : DeviceRow} :
    endsE (issueDeviceTokens env client session f secret grantId) (fun response tr =>
      response.accessToken.scope = response.scope ∧ UserToken env client response.accessToken tr) fun _ _ => True := by
  unfold issueDeviceTokens
  split
  · rw [endsE_bind]
    refine endsE_imp (fun checks tr hchecks => ?_) (fun _ _ _ => trivial) _ (grantChecks_ends hyolo)
    split
    · trivial
    · trivial
    · rename_i hresource huser
      rw [endsE_bind, endsE_require]
      refine ⟨fun hsession => ?_, fun _ => trivial⟩
      rw [Bool.and_eq_true] at hsession
      split
      · trivial
      · rename_i haccess
        obtain ⟨hid, hgranted⟩ := hchecks.granted huser hsession.2 haccess hresource
        subst hid
        have hlater := (lasting_userToken env client).append tr
        refine endsE_skip hlater (fun _ _ => trivial) fun _ => endsE_skip hlater (fun _ _ => trivial) fun _ => ?_
        rw [endsE_bind]
        refine endsE_imp (fun response tr' hresponse => ?_) (fun _ _ _ => trivial) _ (issueUserTokens_granted rfl hgranted)
        have hlater := hlater.append tr'
        refine endsE_skip hlater (fun _ _ => trivial) fun _ => endsE_ite (fun _ => ?_) fun _ => ?_
        · exact endsE_skip hlater (fun _ _ => trivial) fun _ => trivial
        · refine endsE_skip hlater (fun _ _ => trivial) fun _ => endsE_skip hlater (fun _ _ => trivial) fun _ => ?_
          exact endsE_skip hlater (fun _ _ => trivial) fun _ => lasting_userToken env client response (by simp) hresponse
  · trivial

theorem handleDeviceCodeGrant_granted (hyolo : env.yolo = false) {deviceCode : Option String} :
    endsE (handleDeviceCodeGrant env client deviceCode f secret grantId) (fun response tr =>
      response.accessToken.scope = response.scope ∧ UserToken env client response.accessToken tr) fun _ _ => True := by
  have hlast := lasting_userToken env client
  have hthrow : ∀ (p : App Unit) (x : Failure), endsE (p >>= fun _ => recordAudit >>= fun _ => (throw x : App TokenResponse))
      (fun response tr => response.accessToken.scope = response.scope ∧ UserToken env client response.accessToken tr)
      fun _ _ => True := fun p x =>
    endsE_skip hlast (fun _ _ => trivial) fun _ => endsE_skip hlast (fun _ _ => trivial) fun _ => trivial
  unfold handleDeviceCodeGrant
  split
  · trivial
  · refine endsE_skip hlast (fun _ _ => trivial) fun _ => endsE_skip hlast (fun _ _ => trivial) fun found => ?_
    split
    · trivial
    · refine endsE_skip hlast (fun _ _ => trivial) fun now => endsE_ite (fun _ => hthrow _ _) fun _ => ?_
      refine endsE_skip hlast (fun _ _ => trivial) fun now => endsE_ite (fun _ => hthrow _ _) fun _ => ?_
      refine endsE_skip hlast (fun _ _ => trivial) fun _ => ?_
      split
      · trivial
      · exact endsE_skip hlast (fun _ _ => trivial) fun _ => trivial
      · trivial
      · trivial
      · exact issueDeviceTokens_granted hyolo

/-- A service token is for the client itself: its scopes are the client's, and none speaks of a user. -/
structure ServiceToken (client : ClientRow) (token : AccessToken) (tr : Steps) : Prop where
  sub : token.sub = "client:" ++ client.clientId
  clientId : token.clientId = client.clientId
  confidential : client.type = .confidential
  audience : AudienceGranted client token.aud (parseScopeString (some token.scope)) tr
  service : ∀ s ∈ parseScopeString (some token.scope), s ∉ USER_ONLY_SCOPES

theorem handleClientCredentials_ends (hyolo : env.yolo = false) (hscopes : ∀ s ∈ client.allowedScopes, IsWord s)
    {form : ClientCredentialsForm} :
    endsE (handleClientCredentials env client form) (fun response tr =>
      response.accessToken.scope = response.scope ∧ ServiceToken client response.accessToken tr) fun _ _ => True := by
  have hlast : Lasting fun (response : TokenResponse) (tr : Steps) =>
      response.accessToken.scope = response.scope ∧ ServiceToken client response.accessToken tr :=
    fun _ _ _ hsub h => ⟨h.1, h.2.sub, h.2.clientId, h.2.confidential, h.2.audience.sublist hsub, h.2.service⟩
  unfold handleClientCredentials
  refine endsE_ite (fun _ => ?_) fun htype => endsE_ite (fun _ => ?_) fun _ => ?_
  · exact endsE_skip hlast (fun _ _ => trivial) fun _ => trivial
  · exact endsE_skip hlast (fun _ _ => trivial) fun _ => trivial
  · dsimp only
    refine endsE_ite (fun _ => ?_) fun hforbidden => ?_
    · exact endsE_skip hlast (fun _ _ => trivial) fun _ => trivial
    · rw [Bool.not_eq_true', Bool.not_eq_false, List.isEmpty_iff, List.filter_eq_nil_iff] at hforbidden
      generalize hscopes' : (if !(parseScopeString form.scope).isEmpty then parseScopeString form.scope
        else client.allowedScopes.filter fun s => !USER_ONLY_SCOPES.contains s) = scopes
      have hwords : ∀ s ∈ scopes, IsWord s ∧ s ∉ USER_ONLY_SCOPES := by
        intro s hs
        rw [← hscopes'] at hs
        split at hs
        · exact ⟨isWord_of_mem_parse hs, fun hmem => hforbidden s hs (List.contains_iff_mem.2 hmem)⟩
        · obtain ⟨hs, hnot⟩ := List.mem_filter.1 hs
          exact ⟨hscopes s hs, fun hmem => by simp [hmem] at hnot⟩
      rw [endsE_bind]
      refine endsE_imp (fun granted tr₁ hgranted => ?_) (fun _ _ _ => trivial) _ validateRequestedScopes_ends
      obtain ⟨rfl, -⟩ := hgranted
      rw [endsE_bind]
      refine endsE_imp (fun resource tr₂ haudience => ?_) (fun _ _ _ => trivial) _ (resolveResourceForScopes_ends hyolo)
      rw [issueServiceAccessToken, OAuth.signJwt, endsE_bind]
      refine endsE_query (fun w dt => ?_) fun _ => trivial
      have hparse := parse_serialize fun s hs => (hwords s hs).1
      refine endsE_skip (((hlast.append _).append _).append _) (fun _ _ => trivial) fun _ => ⟨rfl, rfl, rfl, not_not.1 htype, ?_, ?_⟩
      · rw [hparse]
        exact haudience.sublist (by simp)
      · rw [hparse]
        exact fun s hs => (hwords s hs).2

/-! ## Refresh -/

/-- The row of a presented token, as a request reads it. -/
def Presents (env : Env) (presented : String) (row : RefreshTokenRow) (db : Database) : Prop :=
  row ∈ db.refreshTokens ∧ (row.tokenHash = hashOpaqueToken env presented ∨ row.id = familyIdOf presented)

theorem lookupPresentedFamily_ends {presented : String} :
    endsE (lookupPresentedFamily env presented)
      (fun found tr => ∀ record, found = some record → ∃ row, toRecord row = record ∧ Saw (Presents env presented row) tr)
      fun _ _ => True := by
  rw [lookupPresentedFamily, getRefreshTokenByHash, endsE_bind]
  refine endsE_select (fun w dt => ?_) fun _ => trivial
  cases hfound : w.db.refreshTokens.rows.find? (·.tokenHash = hashOpaqueToken env presented) with
  | some row =>
    intro record hrecord
    cases hrecord
    exact ⟨row, rfl, .head ⟨List.mem_of_find?_eq_some hfound, Or.inl (by simpa using List.find?_some hfound)⟩⟩
  | none =>
    refine endsE_ite (fun _ => ?_) fun _ record hrecord => by cases hrecord
    rw [getRefreshTokenByFamilyId]
    refine endsE_select (fun w' dt' record hrecord => ?_) fun _ => trivial
    obtain ⟨row, hrow, rfl⟩ := Option.map_eq_some_iff.1 hrecord
    obtain ⟨hmem, hid⟩ := Table.get?_eq_some.1 hrow
    exact ⟨row, rfl, .right (.head ⟨hmem, Or.inr hid⟩)⟩

/-- The family whose row was read is the client's, and its user is granted these scopes again. -/
structure RefreshGranted (env : Env) (client : ClientRow) (presented : String) (row : RefreshTokenRow) (scope : String)
    (tr : Steps) : Prop where
  read : Saw (Presents env presented row) tr
  clientId : row.clientId = client.clientId
  narrows : Narrows row.scope scope
  session : ∀ id, row.sessionId = some id → SawSession row.userId id tr
  granted : UserGranted env client row.userId row.resource (parseScopeString (some scope)) tr

theorem refreshChecks_granted (hyolo : env.yolo = false) {form : RefreshForm} {presented : String} :
    endsE (refreshChecks env client form presented)
      (fun scope tr => ∃ row, RefreshGranted env client presented row scope tr) fun _ _ => True := by
  rw [refreshChecks, endsE_bind]
  refine endsE_imp (fun found tr hfound => ?_) (fun _ _ _ => trivial) _ lookupPresentedFamily_ends
  dsimp only
  split
  · trivial
  · rename_i record hrecord
    obtain ⟨hrecord, howned⟩ := Option.filter_eq_some_iff.1 hrecord
    obtain ⟨row, rfl, hrow⟩ := hfound record hrecord
    have hclient : row.clientId = client.clientId := (of_decide_eq_true howned).1
    -- what was read stays read, whatever is checked after it
    have hlast : Lasting fun (scope : String) (tr : Steps) => ∃ row, RefreshGranted env client presented row scope tr :=
      fun scope _ _ hsub ⟨row, h⟩ => ⟨row, h.read.sublist hsub, h.clientId, h.narrows,
        fun id hid => (h.session id hid).sublist hsub, h.granted.sublist hsub⟩
    have hlater := hlast.append tr
    refine endsE_skip hlater (fun _ _ => trivial) fun now => endsE_skip hlater (fun _ _ => trivial) fun _ => ?_
    refine endsE_skip hlater (fun _ _ => trivial) fun registered => endsE_skip hlater (fun _ _ => trivial) fun _ => ?_
    refine endsE_skip hlater (fun _ _ => trivial) fun _ => ?_
    rw [endsE_bind, endsE_require]
    refine ⟨fun hsub => ?_, fun _ => trivial⟩
    -- from here on the scopes are a part of the granted ones
    have hnarrows := narrows_requested rfl hsub
    generalize hscopes : (if form.scope.isNone = true then parseScopeString (some (toRecord row).scope)
      else parseScopeString form.scope) = scopes at hnarrows ⊢
    -- and every one of them is a word
    have hwords : ∀ s ∈ scopes, IsWord s := by
      intro s hs
      rw [← hscopes] at hs
      split at hs <;> exact isWord_of_mem_parse hs
    rw [endsE_bind]
    refine endsE_imp (fun checks tr' hchecks => ?_) (fun _ _ _ => trivial) _ (grantChecks_ends hyolo)
    split
    · trivial
    · rename_i user huser
      rw [endsE_bind, endsE_require]
      refine ⟨fun hsession => ?_, fun _ => trivial⟩
      split
      · trivial
      · rename_i haccess
        rw [endsE_bind, endsE_require]
        refine ⟨fun hconsent => ?_, fun _ => trivial⟩
        split
        · trivial
        · trivial
        · rename_i hresource
          obtain ⟨hid, hgranted⟩ := hchecks.granted huser hconsent haccess hresource
          refine ⟨row, hrow.left, hclient, hnarrows, fun id hsome => ?_, ?_⟩
          -- the session is the one of the same user
          · have hany : checks.sourceSession.any (·.userId = user.id) = true := by
              have hsome' : (toRecord row).sessionId = some id := hsome
              simpa [hsome'] using hsession
            obtain ⟨s, hs, hs'⟩ := (Option.any_eq_true _ _).1 hany
            have hsaw := hchecks.session id s hsome hs
            rw [of_decide_eq_true hs', hid] at hsaw
            refine hsaw.sublist ?_
            simp
          · rw [parse_serialize hwords]
            refine hgranted.sublist ?_
            simp

/-- What a rotation is asked for is what it grants. -/
theorem rotateRefreshToken_scope {presented clientId scope secret : String} :
    endsE (rotateRefreshToken env presented clientId scope secret)
      (fun o _ => ∀ token userId clientId' resource scope' authTime,
        o = .rotated token userId clientId' resource scope' authTime → scope' = scope) fun _ _ => True := by
  have hlast : Lasting fun (o : RotateOutcome) (_ : Steps) => ∀ token userId clientId' resource scope' authTime,
      o = .rotated token userId clientId' resource scope' authTime → scope' = scope := fun _ _ _ _ h => h
  rw [rotateRefreshToken, endsE_bind]
  refine endsE_io (fun w dt => ?_) fun _ => trivial
  rcases hrot : Do.rotate (w.tick dt).nowSeconds (hashOpaqueToken env presented)
    (hashOpaqueToken env (familyIdOf presented ++ "." ++ secret)) clientId scope
    ((w.tick dt).families (familyIdOf presented)) with ⟨result, s'⟩
  dsimp only
  cases result with
  | rotated m =>
    have hm : m.scope = scope := by
      cases Do.rotate_effect hrot with
      | refused hr => rcases hr with hr | hr | hr | ⟨k, hr⟩ <;> cases hr
      | burned _ hr => rcases hr with hr | hr <;> cases hr
      | rotated => rfl
    refine endsE_skip hlast (fun _ _ => trivial) fun now => endsE_skip hlast (fun _ _ => trivial) fun updated => ?_
    refine endsE_ite (fun _ => endsE_skip hlast (fun _ _ => trivial) fun _ => ?_) fun _ => ?_
    · exact fun _ _ _ _ _ _ heq => by cases heq
    · rintro _ _ _ _ _ _ heq
      cases heq
      exact hm
  | reuseDetected m =>
    refine endsE_skip hlast (fun _ _ => trivial) fun now => endsE_skip hlast (fun _ _ => trivial) fun _ => ?_
    exact fun _ _ _ _ _ _ heq => by cases heq
  | generationLimit m =>
    refine endsE_skip hlast (fun _ _ => trivial) fun _ => ?_
    exact fun _ _ _ _ _ _ heq => by cases heq
  | tooSoon k => exact fun _ _ _ _ _ _ heq => by cases heq
  | revoked => exact fun _ _ _ _ _ _ heq => by cases heq
  | expired => exact fun _ _ _ _ _ _ heq => by cases heq
  | invalid => exact fun _ _ _ _ _ _ heq => by cases heq

end

end Keyforge.OAuth
