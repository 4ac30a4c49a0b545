/-
The authorization endpoint: `GET /oauth/authorize` and `POST /oauth/authorize/decision` (`routes/authorize.ts`),
each behind the session middleware (`middleware/session.ts`). A request is answered with a page of our own, sent
to the login, or sent back to the client with an error or a code.
-/
import Keyforge.Auth.Session
import Keyforge.Do.RateLimit
import Keyforge.OAuth.Authorize
import Keyforge.OAuth.Issue
import Keyforge.OAuth.UserTokenPolicy
import Keyforge.Security.ContinuationStore

namespace Keyforge.Routes

open Lib Db Do Auth OAuth Security

/-! ## The session -/

structure AuthenticatedSession where
  session : SessionRecord
  user : UserRow
  deriving DecidableEq, Repr

/-- `FROM sessions s JOIN users u ON u.id = s.user_id WHERE s.token_hash = ?`. -/
def authenticatedRow (tokenHash : String) (db : Database) : Option (SessionRow × UserRow) := do
  let s ← db.sessions.rows.find? (·.tokenHash = tokenHash)
  let u ← db.users.get? s.userId
  pure (s, u)

/-- Resolve an authenticated browser context in one query; the clock is read after it. -/
def getAuthenticatedSessionByToken (env : Env) (token : String) : App (Option AuthenticatedSession) := do
  let row ← select (authenticatedRow (hashOpaqueToken env token))
  match row with
  | none => pure none
  | some (s, user) =>
    if s.revokedAt ≠ none then pure none
    else
      let now ← clock
      pure (if now ≥ s.expiresAt || user.disabled then none else some ⟨toSession s, user⟩)

/-- What the middleware sets for the request with this cookie. -/
def sessionMiddleware (env : Env) (cookie : Option String) : App (Option AuthenticatedSession) :=
  match cookie with
  | none => pure none
  | some token => getAuthenticatedSessionByToken env token

/-! ## Requests and answers -/

def AUTHORIZE_PARAM_KEYS : List String :=
  ["client_id", "redirect_uri", "response_type", "scope", "state", "nonce", "code_challenge", "code_challenge_method",
    "resource", "prompt", "max_age"]

structure AuthorizeRequest where
  sessionToken : Option String
  pathname : String
  searchParams : SearchParams
  deriving DecidableEq, Repr

/-- A file sent under a name reads as the empty text. -/
structure DecisionRequest where
  sessionToken : Option String
  csrfCookie : Option String
  pathname : String
  searchParams : SearchParams
  form : SearchParams
  deriving DecidableEq, Repr

/-- What a request meets: the answer of the limiter, the continuations and the times at which they are looked up,
the answer to the fetch of a metadata document, and what is drawn at random. -/
structure AuthorizeContext where
  rate : RateLimitResult
  consumedAt : Nat
  now : Nat
  continuations : Continuations
  fetched : Option ClientIdMetadata
  consentId : String
  code : String

inductive ConsentMode where
  | first
  | metadataChanged
  | forced
  | stepUp
  deriving DecidableEq, Repr

structure ConsentPage where
  clientName : String
  clientId : String
  metadataClient : Bool
  redirectUri : String
  scopes : List String
  resourceName : String
  consentMode : ConsentMode
  elevatedScopes : List String
  resource : String
  user : UserRow
  authorizationReturnTo : String
  hiddenFields : SearchParams
  deriving DecidableEq, Repr

/-- `login` is the redirect to `/login` with what it returns to, `respond` the one to the client: the arguments of
`buildRedirectUrl`. -/
inductive AuthorizeAnswer where
  | errorPage (status : Nat) (message : String)
  | tooManyRequests (retryAfterSeconds : Int)
  | login (returnTo : String) (forceReauthentication : Bool)
  | respond (redirectUri : String) (params : List (String × String))
  | consentPage (page : ConsentPage)
  deriving DecidableEq, Repr

def errorText : OAuthErrorCode → String
  | .invalidRequest => "invalid_request"
  | .invalidGrant => "invalid_grant"
  | .unauthorizedClient => "unauthorized_client"
  | .invalidScope => "invalid_scope"
  | .invalidTarget => "invalid_target"
  | .accessDenied => "access_denied"
  | .temporarilyUnavailable => "temporarily_unavailable"
  | .authorizationPending => "authorization_pending"
  | .slowDown => "slow_down"
  | .expiredToken => "expired_token"
  | .unsupportedResponseType => "unsupported_response_type"
  | .loginRequired => "login_required"
  | .consentRequired => "consent_required"

def withState (params : List (String × String)) (state : Option String) : List (String × String) :=
  match state with
  | none => params
  | some state => params ++ [("state", state)]

def authorizationResponseParams (env : Env) (params : List (String × String)) (state : Option String) :
    List (String × String) :=
  withState (params ++ [("iss", env.issuer)]) state

def collectHiddenFields (query : SearchParams) : SearchParams :=
  AUTHORIZE_PARAM_KEYS.filterMap fun key => (query.get key).map fun value => (key, value)

def authorizationReturnTo (hiddenFields : SearchParams) : String :=
  writeLocal "/oauth/authorize" (AUTHORIZE_PARAM_KEYS.foldl (fun query key => match hiddenFields.get key with
    | none => query
    | some value => query.set key value) [])

def readFormField (form : SearchParams) (name : String) : String :=
  (form.get name).getD ""

/-- The parameters that the form carries over, as a query. -/
def decisionQuery (form : SearchParams) : SearchParams :=
  AUTHORIZE_PARAM_KEYS.foldl (fun query key => match form.get key with
    | none => query
    | some value => query.set key value) []

def verifyCsrfToken (env : Env) (cookie submitted : Option String) : Bool :=
  env.yolo || match cookie, submitted.filter (· ≠ "") with
    | some cookie, some submitted => timingSafeEqualString cookie submitted
    | _, _ => false

/-- Emit one denial audit when the key first crosses its limit. -/
def shouldAuditRateLimit (result : RateLimitResult) : Bool :=
  !result.allowed && result.firstDenied

def invalidParametersPage : AuthorizeAnswer :=
  .errorPage 400 "The authorization request contains invalid or oversized parameters."

/-! ## The ends of a request -/

def errorRedirect (env : Env) (redirectUri : String) (state : Option String) (error : OAuthErrorCode) (description : String) :
    App AuthorizeAnswer := do
  recordAudit
  pure (.respond redirectUri (authorizationResponseParams env
    [("error", errorText error), ("error_description", description)] state))

def interactionError (env : Env) (params : AuthorizeParams) (error : OAuthErrorCode) (description : String) :
    App AuthorizeAnswer := do
  recordAudit
  pure (.respond params.redirectUri (authorizationResponseParams env
    [("error", errorText error), ("error_description", description)] params.state))

def completeAuthorization (env : Env) (context : AuthorizeContext) (params : AuthorizeParams) (viewer : AuthenticatedSession) :
    App AuthorizeAnswer := do
  let code ← issueAuthorizationCode env context.code params
    { user := viewer.user, sessionId := viewer.session.id, authTime := viewer.session.authTime }
  recordAudit
  pure (.respond params.redirectUri (authorizationResponseParams env [("code", code)] params.state))

def denyAuthorization (env : Env) (params : AuthorizeParams) : App AuthorizeAnswer := do
  recordAudit
  pure (.respond params.redirectUri (authorizationResponseParams env
    [("error", "access_denied"), ("error_description", "The user denied the request")] params.state))

/-- Interaction requirements remain intact until a new session presents the proof of its login. -/
def redirectToLogin (pathname : String) (searchParams : SearchParams) (forceReauthentication : Bool) : AuthorizeAnswer :=
  .login (writeLocal pathname (searchParams.delete REAUTH_PROOF_PARAM)) forceReauthentication

/-! ## The checks both requests make -/

def enforceMetadataAuthorizeRate (env : Env) (context : AuthorizeContext) (query : SearchParams) :
    App (Option AuthorizeAnswer) := do
  if (query.getAll "client_id").length ≠ 1 then pure none
  else match query.get "client_id" with
    | none => pure none
    | some clientId =>
      if (parseClientIdentifierUrl env clientId).isNone then pure none
      else
        let rate ← Keyforge.query fun _ => context.rate
        if rate.allowed then pure none
        else
          if shouldAuditRateLimit rate then recordAudit
          pure (some (.tooManyRequests rate.retryAfterSeconds))

/-- The clock is read only for an age other than zero. -/
def sessionTooOld (maxAge : Option Nat) (session : SessionRecord) : App Bool :=
  match maxAge with
  | none => pure false
  | some maxAge =>
    if maxAge = 0 then pure true
    else do
      let now ← clock
      pure (decide (now - session.authTime > maxAge))

def accessInput (viewer : AuthenticatedSession) (params : AuthorizeParams) : UserTokenAccessInput :=
  { userId := viewer.user.id, clientId := params.clientId, resourceUri := params.resource, scopes := params.scopes }

/-! ## GET /oauth/authorize -/

/-- The scopes that the consent under the client's metadata lacks. -/
def elevatedScopes (params : AuthorizeParams) (priorConsent : Option ConsentRow) : List String :=
  let prior := priorConsent.filter fun c => c.metadataFingerprint = params.client.metadataFingerprint
  params.scopes.filter fun scope => !(prior.elim [] fun c => parseScopeString (some c.scope)).contains scope

def consentMode (params : AuthorizeParams) (priorConsent : Option ConsentRow) (hasConsent : Bool) : ConsentMode :=
  match priorConsent with
  | none => .first
  | some c =>
    if c.metadataFingerprint ≠ params.client.metadataFingerprint then .metadataChanged
    else if hasConsent then .forced
    else .stepUp

/-- The consent, the one stored and the resource, each read on its own. -/
def consentReads (env : Env) (viewer : AuthenticatedSession) (params : AuthorizeParams) :
    App (Bool × Option ConsentRow × Option ResourceRow) :=
  all 1 (consentCoversScopes env viewer.user.id params.clientId params.resource params.scopes params.client.metadataFingerprint)
    (all 2 (getConsent viewer.user.id params.clientId params.resource) (getResourceByUri params.resource))

def handleAuthorized (env : Env) (context : AuthorizeContext) (pathname : String) (searchParams : SearchParams)
    (viewer : Option AuthenticatedSession) (params : AuthorizeParams) (hiddenFields : SearchParams) : App AuthorizeAnswer := do
  let noInteraction := params.prompts.contains .none
  match viewer with
  | none =>
    if noInteraction then interactionError env params .loginRequired "User authentication is required"
    else pure (redirectToLogin pathname searchParams (params.prompts.contains .login || params.maxAge.isSome))
  | some viewer =>
    let tooOld ← sessionTooOld params.maxAge viewer.session
    if params.prompts.contains .login || tooOld then
      if noInteraction then interactionError env params .loginRequired "Fresh user authentication is required"
      else pure (redirectToLogin pathname searchParams true)
    else
      let access ← evaluateUserTokenAccess env (accessInput viewer params)
      match access with
      | some _ =>
        interactionError env params .accessDenied
          "This account is not permitted to access this application or resource."
      | none =>
        recordAudit
        let (hasConsent, priorConsent, resource) ← consentReads env viewer params
        if hasConsent && !params.prompts.contains .consent then completeAuthorization env context params viewer
        else if noInteraction then interactionError env params .consentRequired "User consent is required"
        else
          pure (.consentPage
            { clientName := params.client.name, clientId := params.clientId,
              metadataClient := params.client.registrationType = .clientIdMetadata, redirectUri := params.redirectUri,
              scopes := params.scopes, resourceName := (resource.map (·.name)).getD params.resource,
              consentMode := consentMode params priorConsent hasConsent, elevatedScopes := elevatedScopes params priorConsent,
              resource := params.resource, user := viewer.user, authorizationReturnTo := authorizationReturnTo hiddenFields,
              hiddenFields })

def dispatchValidation (env : Env) (context : AuthorizeContext) (pathname : String) (searchParams : SearchParams)
    (viewer : Option AuthenticatedSession) (validation : AuthorizeValidation) (hiddenFields : SearchParams) :
    App AuthorizeAnswer := do
  match validation with
  | .invalidRequestPage description reason _ =>
    if reason = .invalidClient || reason = .invalidRedirectUri then recordAudit
    pure (.errorPage 400 description)
  | .errorRedirect redirectUri state error description => errorRedirect env redirectUri state error description
  | .ok params => handleAuthorized env context pathname searchParams viewer params hiddenFields

/-- What the request asks for after its continuation was looked up. -/
def continuedQuery (env : Env) (context : AuthorizeContext) (request : AuthorizeRequest)
    (viewer : Option AuthenticatedSession) : SearchParams :=
  (consumeReauthContinuation env (viewer.map (·.session.id)) context.consumedAt context.now request.pathname
    request.searchParams context.continuations).1.2

/-- `GET /oauth/authorize`. -/
def getAuthorize (env : Env) (context : AuthorizeContext) (request : AuthorizeRequest) : App AuthorizeAnswer := do
  let viewer ← sessionMiddleware env request.sessionToken
  if (validateOAuthParameterSet env request.searchParams).isSome then pure invalidParametersPage
  else
    let rateLimited ← enforceMetadataAuthorizeRate env context request.searchParams
    match rateLimited with
    | some answer => pure answer
    | none =>
      let query := continuedQuery env context request viewer
      let validation ← validateAuthorizeRequest env context.fetched query
      dispatchValidation env context request.pathname request.searchParams viewer validation (collectHiddenFields query)

/-! ## POST /oauth/authorize/decision -/

/-- The user's decision on a request that is accepted. -/
def handleDecision (env : Env) (context : AuthorizeContext) (form : SearchParams) (viewer : AuthenticatedSession)
    (params : AuthorizeParams) : App AuthorizeAnswer := do
  let tooOld ← sessionTooOld params.maxAge viewer.session
  if params.prompts.contains .login || tooOld then
    interactionError env params .loginRequired "Fresh user authentication is required"
  else
    let access ← evaluateUserTokenAccess env (accessInput viewer params)
    match access with
    | some _ =>
      interactionError env params .accessDenied
        "This account is not permitted to access this application or resource."
    | none =>
      if params.prompts.contains .none then
        interactionError env params .consentRequired "Interactive consent is required"
      else if readFormField form "decision" ≠ "approve" then denyAuthorization env params
      else if params.scopes.contains "mcp.tools.execute" && readFormField form "confirm_elevated" ≠ "yes" then
        interactionError env params .accessDenied "Elevated MCP execution permission was not explicitly confirmed."
      else
        saveConsent context.consentId
          { userId := viewer.user.id, clientId := params.clientId, scope := serializeScopes params.scopes,
            resource := params.resource, metadataFingerprint := params.client.metadataFingerprint }
        completeAuthorization env context params viewer

/-- `POST /oauth/authorize/decision`. -/
def postDecision (env : Env) (context : AuthorizeContext) (request : DecisionRequest) : App AuthorizeAnswer := do
  let viewer ← sessionMiddleware env request.sessionToken
  let query := decisionQuery request.form
  if (validateOAuthParameterSet env query).isSome then pure invalidParametersPage
  else
    let hiddenFields := collectHiddenFields query
    let authorizeReturnTo := authorizationReturnTo hiddenFields
    match viewer with
    | none => pure (.login authorizeReturnTo false)
    | some viewer =>
      if !verifyCsrfToken env request.csrfCookie (some (readFormField request.form "csrf_token")) then
        pure (.errorPage 403 "Your session expired. Please try again.")
      else
        let rateLimited ← enforceMetadataAuthorizeRate env context query
        match rateLimited with
        | some answer => pure answer
        | none =>
          let validation ← validateAuthorizeRequest env context.fetched query
          match validation with
          | .ok params => handleDecision env context request.form viewer params
          | validation => dispatchValidation env context request.pathname request.searchParams (some viewer) validation hiddenFields

end Keyforge.Routes
