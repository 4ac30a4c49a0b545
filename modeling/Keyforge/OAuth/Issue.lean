/-
Token responses (`tokens/access-token.ts`, `oauth/token/issue.ts`, `oauth/token/response.ts`). A
signed token is the record of its claims; signing reads the keyring, which may fail.
-/
import Keyforge.OAuth.Resources
import Keyforge.OAuth.UserTokenPolicy
import Keyforge.Tokens.RefreshToken

namespace Keyforge.OAuth

open Lib Db Tokens

/-! ## Tokens -/

/-- The claims of an access token. A service token has no `auth_time`. -/
structure AccessToken where
  sub : String
  aud : String
  clientId : String
  scope : String
  authTime : Option Nat
  expiresIn : Nat
  deriving DecidableEq, Repr

structure IdToken where
  sub : String
  aud : String
  scopes : List String
  authTime : Nat
  nonce : Option String
  deriving DecidableEq, Repr

structure TokenResponse where
  accessToken : AccessToken
  scope : String
  idToken : Option IdToken
  refreshToken : Option String
  deriving DecidableEq, Repr

/-- `signJwt`: the keyring is read. -/
def signJwt {α : Type} (claims : α) : App α :=
  query fun _ => claims

/-- `recordAudit`: a queue send or an insert into a table nothing else reads. -/
def recordAudit : App Unit :=
  query fun _ => ()

def issueServiceAccessToken (clientId resource scope : String) : App AccessToken :=
  signJwt { sub := "client:" ++ clientId, aud := resource, clientId, scope, authTime := none,
            expiresIn := TOKEN_TTL.serviceAccessToken }

def issueUserAccessToken (userId clientId resource scope : String) (authTime : Nat) : App AccessToken :=
  signJwt { sub := userId, aud := resource, clientId, scope, authTime := some authTime,
            expiresIn := TOKEN_TTL.userAccessToken }

def issueIdToken (user : UserRow) (clientId : String) (scopes : List String) (authTime : Nat)
    (nonce : Option String) : App IdToken :=
  signJwt { sub := user.id, aud := clientId, scopes, authTime, nonce }

/-- The id token, when `openid` was granted. -/
def idTokenFor (user : UserRow) (clientId : String) (scopes : List String) (authTime : Nat)
    (nonce : Option String) : App (Option IdToken) :=
  if scopes.contains "openid" then some <$> issueIdToken user clientId scopes authTime nonce else pure none

/-! ## User tokens -/

structure IssueUserTokensInput where
  user : UserRow
  client : ClientRow
  scope : String
  resource : String
  nonce : Option String
  authTime : Nat
  sessionId : Option String
  rememberMe : Option Bool
  accessValidated : Bool
  deriving DecidableEq, Repr

def policyDenied (reason : AccessDenial) : Failure :=
  .oauth .invalidGrant "This account is not permitted to access this application or resource."
    ("user token policy denied " ++ reason.text)

/-- The family behind a user token response. -/
def IssueUserTokensInput.refreshInput (input : IssueUserTokensInput) : IssueRefreshInput :=
  { userId := input.user.id, clientId := input.client.clientId, sessionId := input.sessionId,
    resource := input.resource, scope := input.scope, authTime := input.authTime,
    rememberMe := input.rememberMe.getD false }

/-- Whether the response carries a refresh token. -/
def IssueUserTokensInput.refreshes (input : IssueUserTokensInput) : Bool :=
  (parseScopeString input.scope).contains "offline_access" && input.client.allowedGrantTypes.contains "refresh_token"

/-- An access token, an id token when `openid` was granted, and a refresh token when
`offline_access` was granted and the client permits it. -/
def issueUserTokens (env : Env) (input : IssueUserTokensInput) (familyId secret : String) : App TokenResponse := do
  let scopes := parseScopeString input.scope
  if !input.accessValidated then
    let access ← evaluateUserTokenAccess env
      { userId := input.user.id, clientId := input.client.clientId, resourceUri := input.resource, scopes }
    match access with
    | some reason => throw (policyDenied reason)
    | none => pure ()
  let accessToken ← issueUserAccessToken input.user.id input.client.clientId input.resource input.scope input.authTime
  let idToken ← idTokenFor input.user input.client.clientId scopes input.authTime input.nonce
  if input.refreshes then
    let refresh ← issueRefreshToken env input.refreshInput familyId secret
    pure { accessToken, scope := input.scope, idToken, refreshToken := some refresh.token }
  else pure { accessToken, scope := input.scope, idToken, refreshToken := none }

end Keyforge.OAuth
