/-
The token endpoint's four grants (`oauth/token/*.ts`, `oauth/client-credentials.ts`). The client has
been authenticated and is a snapshot of its row; the random values a handler draws are arguments.
-/
import Keyforge.Auth.Session
import Keyforge.OAuth.Issue

namespace Keyforge.OAuth

open Lib Db Tokens Auth Do

/-! ## What the user grants check -/

/-- The five reads the user grants await together: user, session, consent, policy, audience. The
audience's refusal is kept for later. -/
structure GrantChecks where
  user : Option UserRow
  sourceSession : Option SessionRecord
  consentCovered : Bool
  access : Option AccessDenial
  resource : Except Failure String

/-- `Promise.all` of the five reads, for the scopes `scopes` of `client` on `resource`. -/
def grantChecks (env : Env) (client : ClientRow) (userId : String) (sessionId : Option String) (resource : String)
    (scopes : List String) : App GrantChecks := do
  let (user, sourceSession, consentCovered, access, resource) ←
    all 0 (getUserById userId) <|
    all 1 (match sessionId with
      | none => pure none
      | some sessionId => getSessionById sessionId) <|
    all 2 (consentCoversScopes env userId client.clientId resource scopes client.metadataFingerprint) <|
    all 3 (evaluateUserTokenAccess env { userId, clientId := client.clientId, resourceUri := resource, scopes }) <|
    settled (resolveResourceForScopes env client (some resource) scopes)
  pure { user, sourceSession, consentCovered, access, resource }

/-! ## authorization_code -/

structure AuthorizationCodeForm where
  code : Option String
  redirectUri : Option String
  codeVerifier : Option String
  resource : Option String
  deriving DecidableEq, Repr

def ConsumeIfReason.text : ConsumeIfReason → String
  | .notFound => "not_found"
  | .binding => "binding"
  | .resource => "resource"
  | .pkce => "pkce"

/-- `AUTHORIZATION_CODE.getByName(hash).consumeIf`. -/
def consumeCode (env : Env) (codeHash : String) (input : ConsumeIfInput) : App ConsumeIfResult :=
  io fun w =>
    let r := Do.consumeIf env.sha256 env.yolo w.nowMs input (w.codes codeHash)
    (r.1, { w with codes := Function.update w.codes codeHash r.2 })

/-- The tokens of a consumed code: checks, issuance, and the grant record. -/
def exchangeGrant (env : Env) (client : ClientRow) (grant : AuthorizationCodePayload)
    (familyId secret grantId : String) : App TokenResponse := do
  let scopes := parseScopeString grant.scope
  let checks ← grantChecks env client grant.userId (some grant.sessionId) grant.resource scopes
  match checks.user.filter (!·.disabled) with
  | none => throw (.oauth .invalidGrant "The account is unavailable"
      ("user " ++ grant.userId ++ " missing or disabled"))
  | some user =>
    require (checks.sourceSession.any (·.userId = user.id))
      (.oauth .invalidGrant "The authorization session is no longer active"
        ("session " ++ grant.sessionId ++ " was revoked, expired, or changed owner"))
    require checks.consentCovered
      (.oauth .invalidGrant "The authorization was revoked" "consent no longer covers the authorization code grant")
    match checks.access, checks.resource with
    | some reason, _ => throw (policyDenied reason)
    | none, .error error => throw error
    | none, .ok _ =>
      let response ← issueUserTokens env
        { user, client, scope := grant.scope, resource := grant.resource, nonce := grant.nonce,
          authTime := grant.authTime, sessionId := some grant.sessionId, rememberMe := none, accessValidated := true }
        familyId secret
      recordAuthorizationGrant grantId
        { userId := user.id, clientId := client.clientId, sessionId := some grant.sessionId, scope := grant.scope,
          resource := grant.resource, grantType := "authorization_code" }
      recordAudit
      pure response

def handleAuthorizationCode (env : Env) (client : ClientRow) (form : AuthorizationCodeForm)
    (familyId secret grantId : String) : App TokenResponse := do
  match form.code, form.redirectUri, form.codeVerifier with
  | some code, some redirectUri, some codeVerifier =>
    let consumed ← consumeCode env (hashOpaqueToken env code)
      { issuer := env.issuer, clientId := client.clientId, redirectUri, resource := form.resource,
        metadataFingerprint := client.metadataFingerprint, codeVerifier }
    match consumed with
    | .refused reason =>
      if reason = .pkce then recordAudit
      require (!(reason = .resource && form.resource.isNone))
        (.oauth .invalidRequest "The resource parameter is required for this authorization code"
          "token exchange omitted the resource bound to the authorization code")
      throw (.oauth .invalidGrant "Invalid or expired authorization code"
        ("authorization code validation failed: " ++ ConsumeIfReason.text reason))
    | .found grant => exchangeGrant env client grant familyId secret grantId
  | _, _, _ => throw (.oauth .invalidRequest "Missing code, redirect_uri, or code_verifier"
      "authorization_code request missing a required parameter")

/-! ## refresh_token -/

structure RefreshForm where
  refreshToken : Option String
  resource : Option String
  scope : Option String
  deriving DecidableEq, Repr

/-- A response, or a request to retry later. -/
inductive RefreshAnswer where
  | issued (response : TokenResponse)
  | tooSoon (retryAfterSeconds : Nat)
  deriving DecidableEq, Repr

def invalidRefreshToken (detail : String) : Failure :=
  .oauth .invalidGrant "Invalid refresh token" detail

/-- The row of a presented token: by its hash, or for an already-rotated token by its family. -/
def lookupPresentedFamily (env : Env) (presentedToken : String) : App (Option RefreshTokenRecord) := do
  let byHash ← getRefreshTokenByHash (hashOpaqueToken env presentedToken)
  match byHash with
  | some record => pure (some record)
  | none =>
    if presentedToken.toList.contains '.' && familyIdOf presentedToken ≠ "" then
      getRefreshTokenByFamilyId (familyIdOf presentedToken)
    else pure none

def issueRotatedTokens (client : ClientRow) (token userId clientId resource scope : String) (authTime : Nat) :
    App TokenResponse := do
  require (clientId = client.clientId) (.oauth .invalidGrant "Invalid refresh token"
    ("refresh token family belongs to " ++ clientId ++ ", presented by " ++ client.clientId))
  let user ← getUserById userId
  match user.filter (!·.disabled) with
  | none => throw (.oauth .invalidGrant "The account is unavailable" ("user " ++ userId ++ " missing or disabled"))
  | some user =>
    let scopes := parseScopeString scope
    let accessToken ← issueUserAccessToken user.id client.clientId resource scope authTime
    let idToken ← idTokenFor user client.clientId scopes authTime none
    recordAudit
    pure { accessToken, scope, idToken, refreshToken := some token }

/-- The checks of `handleRefreshToken` that precede the rotation; the result is the scope to rotate
to. -/
def refreshChecks (env : Env) (client : ClientRow) (form : RefreshForm) (presented : String) : App String := do
  let record ← lookupPresentedFamily env presented
  let unknown := invalidRefreshToken "refresh token unknown, expired, revoked, or belongs to another client"
  match record.filter fun r => r.clientId = client.clientId ∧ r.revokedAt = none with
  | none => throw unknown
  | some record =>
    let now ← clock
    require (now < record.expiresAt) unknown
    let registeredResource ← getResourceByUri record.resource
    require (!(registeredResource.any (·.mcpEnabled) && form.resource.isNone))
      (.oauth .invalidRequest "The resource parameter is required for this protected resource"
        ("MCP refresh request omitted resource " ++ record.resource))
    require (form.resource.all (· = record.resource))
      (invalidRefreshToken ("refresh resource " ++ form.resource.getD "" ++ " did not match token resource " ++
        record.resource))
    let originalScopes := parseScopeString record.scope
    let scopes := if form.scope.isNone then originalScopes else parseScopeString form.scope
    require (!scopes.isEmpty && scopes.all originalScopes.contains)
      (.oauth .invalidScope "Requested scope must be a non-empty subset of the original authorization"
        "refresh scope expands or empties the original authorization")
    let checks ← grantChecks env client record.userId record.sessionId record.resource scopes
    match checks.user.filter (!·.disabled) with
    | none => throw (invalidRefreshToken ("user " ++ record.userId ++ " missing or disabled"))
    | some user =>
      require (record.sessionId.isNone || checks.sourceSession.any (·.userId = user.id))
        (invalidRefreshToken "source session was revoked, expired, or changed owner")
      match checks.access with
      | some reason => throw (policyDenied reason)
      | none =>
        require checks.consentCovered
          (invalidRefreshToken "current consent no longer covers the refresh authorization")
        match checks.resource with
        | .error (.oauth _ _ detail) =>
          throw (invalidRefreshToken ("refresh authorization no longer permitted: " ++ detail))
        | .error error => throw error
        | .ok _ => pure (serializeScopes scopes)

/-- What a rotation's outcome means to the client. -/
def answerRotation (client : ClientRow) : RotateOutcome → App RefreshAnswer
  | .invalid => throw (invalidRefreshToken "refresh token unknown, expired, revoked, or lost a rotation race")
  | .reuseDetected _ => do
    recordAudit
    throw (.oauth .invalidGrant "Invalid refresh token" "refresh token reuse detected; token family revoked")
  | .tooSoon retryAfterSeconds => pure (.tooSoon retryAfterSeconds)
  | .reauthorizationRequired familyId =>
    throw (.oauth .invalidGrant "Refresh token lifetime exhausted; authorize again"
      ("refresh family " ++ familyId ++ " reached its generation limit and was revoked"))
  | .rotated token userId clientId resource scope authTime =>
    .issued <$> issueRotatedTokens client token userId clientId resource scope authTime

def handleRefreshToken (env : Env) (client : ClientRow) (form : RefreshForm) (secret : String) :
    App RefreshAnswer := do
  match form.refreshToken with
  | none => throw (.oauth .invalidRequest "Missing refresh_token" "refresh_token grant without a refresh_token")
  | some presented =>
    require (client.allowedGrantTypes.contains "refresh_token")
      (.oauth .unauthorizedClient "Client is not permitted to use this grant"
        ("refresh_token not allowed for " ++ client.clientId))
    let effectiveScope ← refreshChecks env client form presented
    let outcome ← rotateRefreshToken env presented client.clientId effectiveScope secret
    answerRotation client outcome

/-! ## device_code -/

def DEVICE_CODE_GRANT : String := "urn:ietf:params:oauth:grant-type:device_code"

def deviceRevoked (detail : String) : Failure :=
  .oauth .invalidGrant "The device authorization was revoked" detail

/-- Revoke the family of a response that must not be returned. -/
def withdrawDeviceFamily (response : TokenResponse) : App Unit :=
  match (response.refreshToken.map familyIdOf).filter (· ≠ "") with
  | none => pure ()
  | some familyId => do
    let _ ← all 0 (revokeFamily familyId) (markRefreshTokenRevoked familyId)
    pure ()

def issueDeviceTokens (env : Env) (client : ClientRow) (session : DeviceRow) (familyId secret grantId : String) :
    App TokenResponse := do
  match session.userId, session.resourceUri, session.sessionId, session.authTime with
  | some userId, some resourceUri, some browserSessionId, some authTime =>
    let scopes := parseScopeString session.scope
    let checks ← grantChecks env client userId (some browserSessionId) resourceUri scopes
    match checks.resource, checks.user.filter (!·.disabled) with
    | .error error, _ => throw error
    | .ok _, none => throw (.oauth .invalidGrant "The account is unavailable"
        ("user " ++ userId ++ " missing or disabled"))
    | .ok _, some user =>
      require (checks.sourceSession.any (·.userId = user.id) && checks.consentCovered)
        (deviceRevoked "approving session or consent is no longer active")
      match checks.access with
      | some reason => throw (policyDenied reason)
      | none =>
        let consumed ← consumeApprovedDevice session.id
        require consumed (.oauth .invalidGrant "The device code was already used"
          "approved device session lost the consume race")
        -- the target device is independent of the browser that approved it: no session
        let response ← issueUserTokens env
          { user, client, scope := session.scope, resource := resourceUri, nonce := none, authTime,
            sessionId := none, rememberMe := none, accessValidated := true } familyId secret
        let (sessionAfterIssue, consentAfterIssue) ← all 0 (getSessionById browserSessionId)
          (consentCoversScopes env user.id client.clientId resourceUri scopes client.metadataFingerprint)
        if !(sessionAfterIssue.any (·.userId = user.id) && consentAfterIssue) then
          withdrawDeviceFamily response
          throw (deviceRevoked "authorization changed while device tokens were being issued")
        else
          recordAuthorizationGrant grantId
            { userId := user.id, clientId := client.clientId, sessionId := none, scope := session.scope,
              resource := resourceUri, grantType := DEVICE_CODE_GRANT }
          recordAudit
          recordAudit
          pure response
  | _, _, _, _ => throw (.oauth .invalidGrant "Invalid device session"
      "approved device session missing user, resource, or authentication context")

def handleDeviceCodeGrant (env : Env) (client : ClientRow) (deviceCode : Option String)
    (familyId secret grantId : String) : App TokenResponse := do
  match deviceCode with
  | none => throw (.oauth .invalidRequest "Missing device_code" "device_code grant without device_code")
  | some deviceCode =>
    require (client.allowedGrantTypes.contains DEVICE_CODE_GRANT)
      (.oauth .unauthorizedClient "Client may not use the device flow"
        ("device_code grant not allowed for " ++ client.clientId))
    let found ← getDeviceByDeviceCodeHash (hashOpaqueToken env deviceCode)
    match found.filter (·.clientId = client.clientId) with
    | none => throw (.oauth .invalidGrant "Invalid device code"
        "device_code not found or issued to a different client")
    | some session =>
      let now ← clock
      if now ≥ session.expiresAt then
        markDeviceExpired session.id
        recordAudit
        throw (.oauth .expiredToken "The device code has expired" "device_code past its expiry")
      else
        let now ← clock
        if session.lastPolledAt.any fun lastPolledAt => now < lastPolledAt + session.pollIntervalSeconds then
          recordDeviceSlowPoll session.id
          recordAudit
          throw (.oauth .slowDown "Polling too frequently" "client polled faster than the advertised interval")
        else
          recordDevicePoll session.id
          match session.status with
          | .pending => throw (.oauth .authorizationPending "Authorization pending"
              "user has not yet approved the device")
          | .denied =>
            recordAudit
            throw (.oauth .accessDenied "The user denied the request" "device authorization denied by the user")
          | .expired => throw (.oauth .expiredToken "The device code has expired"
              "device session already marked expired")
          | .consumed => throw (.oauth .invalidGrant "The device code was already used"
              "device session already consumed")
          | .approved => issueDeviceTokens env client session familyId secret grantId

/-! ## client_credentials -/

structure ClientCredentialsForm where
  scope : Option String
  resource : Option String
  deriving DecidableEq, Repr

def handleClientCredentials (env : Env) (client : ClientRow) (form : ClientCredentialsForm) : App TokenResponse := do
  if client.type ≠ .confidential then
    recordAudit
    throw (.oauth .unauthorizedClient "Client is not permitted to use this grant"
      ("client " ++ client.clientId ++ " is public"))
  else if !client.allowedGrantTypes.contains "client_credentials" then
    recordAudit
    throw (.oauth .unauthorizedClient "Client is not permitted to use this grant"
      ("client_credentials not allowed for " ++ client.clientId))
  else
    let requestedScopes := parseScopeString form.scope
    let forbidden := requestedScopes.filter USER_ONLY_SCOPES.contains
    if !forbidden.isEmpty then
      recordAudit
      throw (.oauth .invalidScope "Requested scope is not available to service clients"
        ("user-only scopes rejected: " ++ serializeScopes forbidden))
    else
      let effectiveScopes := if !requestedScopes.isEmpty then requestedScopes
        else client.allowedScopes.filter fun s => !USER_ONLY_SCOPES.contains s
      let grantedScopes ← validateRequestedScopes effectiveScopes client.allowedScopes
      let resource ← resolveResourceForScopes env client form.resource grantedScopes
      let scope := serializeScopes grantedScopes
      let accessToken ← issueServiceAccessToken client.clientId resource scope
      recordAudit
      pure { accessToken, scope, idToken := none, refreshToken := none }

end Keyforge.OAuth
