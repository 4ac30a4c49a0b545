/-
Token introspection (`oauth/introspect.ts`, `verifyAccessToken` of `tokens/jwt.ts`). A token that verifies
as an access token is answered from its claims; any other token is looked up as a refresh token. The
introspector has been authenticated and is a snapshot of its row.
-/
import Keyforge.Auth.Session
import Keyforge.Lib.Json
import Keyforge.OAuth.Issue

namespace Keyforge.OAuth

open Lib Db Tokens Auth

/-! ## Access tokens -/

/-- What the JWT library returns for a token it accepts: the `typ` of the protected header, and the
payload. -/
structure VerifiedJwt where
  typ : Option String
  payload : Json
  deriving Repr

/-- `jwtVerify` with the published keys, for access tokens of this issuer with one of the given
audiences; `none` is an exception. -/
abbrev JwtVerify := World → String → List String → Option VerifiedJwt

def JWT_TYP_ACCESS_TOKEN : String := "at+jwt"

/-- A claim; a missing one is `undefined`. -/
def claim (payload : Json) (name : String) : Option Json :=
  match payload with
  | .obj members => members.lookup name
  | _ => none

/-- A claim that is a string. -/
def stringClaim (payload : Json) (name : String) : Option String :=
  match claim payload name with
  | some (.str s) => some s
  | _ => none

/-- A string or an array that is not empty. -/
def isNonEmpty : Json → Bool
  | .str s => s ≠ ""
  | .arr elements => !elements.isEmpty
  | _ => false

def hasAudience (payload : Json) : Bool :=
  match claim payload "aud" with
  | some (.str s) => s ≠ ""
  | some (.arr elements) => !elements.isEmpty && elements.all isNonEmpty
  | _ => false

def verifyAccessToken (jwtVerify : JwtVerify) (token : String) (audience : List String) : App Json := do
  let verified ← query fun w => jwtVerify w token audience
  match verified with
  | none => throw (.error "JWT verification failed")
  | some verified =>
    let payload := verified.payload
    require (verified.typ = some JWT_TYP_ACCESS_TOKEN) (.error "JWT is not an access token")
    require (stringClaim payload "token_use" = some "access_token") (.error "JWT token_use is not access_token")
    require (hasAudience payload) (.error "Access token has no valid audience")
    require ((stringClaim payload "sub").any (· ≠ "") && (stringClaim payload "client_id").isSome &&
      (stringClaim payload "scope").isSome) (.error "Access token is missing required claims")
    pure payload

/-- Resource services may inspect any token for an audience they protect. Confidential web applications may
inspect only tokens issued to themselves. -/
def mayInspectClientTokens (introspector : ClientRow) (tokenClientId : String) : Bool :=
  introspector.clientKind = .service ||
    (introspector.clientKind = .application && introspector.clientId = tokenClientId)

/-- The claims of an active access token that are reported. -/
def REPORTED_CLAIMS : List String :=
  ["sub", "aud", "iss", "exp", "iat", "jti", "scope", "client_id", "token_use"]

/-- The report on an active access token; claims that are missing are left out. -/
def accessTokenReport (payload : Json) : List (String × Json) :=
  ("active", .bool true) :: (REPORTED_CLAIMS.filterMap fun name => (claim payload name).map fun value => (name, value)) ++
    [("token_type", .str "Bearer")]

def isServicePayload (payload : Json) : Bool :=
  stringClaim payload "actor_type" = some "service" || (stringClaim payload "sub").any (·.startsWith "client:")

/-- The checks on a verified access token; `none` is not active. -/
def inspectAccessToken (env : Env) (introspector : ClientRow) (payload : Json) : App (Option (List (String × Json))) := do
  match stringClaim payload "aud", stringClaim payload "client_id" with
  | some aud, some clientId =>
    if !mayInspectClientTokens introspector clientId then pure none
    else
      let tokenClient ← getClientById clientId
      match tokenClient.filter (·.enabled) with
      | none => pure none
      | some tokenClient =>
        let scopes := parseScopeString (some ((stringClaim payload "scope").getD ""))
        let _ ← resolveResourceForScopes env tokenClient (some aud) scopes
        if scopes.contains "groups" then pure none
        else if isServicePayload payload then pure (some (accessTokenReport payload))
        else
          match stringClaim payload "sub" with
          | none => pure none
          | some sub =>
            let user ← getUserById sub
            match user.filter (!·.disabled) with
            | none => pure none
            | some user =>
              let access ← evaluateUserTokenAccess env
                { userId := user.id, clientId := tokenClient.clientId, resourceUri := aud, scopes }
              if access.isSome then pure none
              else
                let covered ← consentCoversScopes env user.id tokenClient.clientId aud scopes tokenClient.metadataFingerprint
                pure (if covered then some (accessTokenReport payload) else none)
  | _, _ => pure none

/-- The report on an active access token; whatever fails on the way makes the token inactive. -/
def introspectAccessToken (env : Env) (jwtVerify : JwtVerify) (token : String) (introspector : ClientRow) :
    App (Option (List (String × Json))) :=
  tryCatch (do
    if introspector.allowedResources.isEmpty then pure none
    else
      let payload ← verifyAccessToken jwtVerify token introspector.allowedResources
      inspectAccessToken env introspector payload) fun _ => pure none

/-! ## Refresh tokens -/

/-- The report on an active refresh token. -/
structure RefreshTokenReport where
  sub : String
  clientId : String
  scope : String
  aud : String
  exp : Nat
  deriving DecidableEq, Repr

inductive IntrospectionAnswer where
  | invalidRequest
  | inactive
  | accessToken (report : List (String × Json))
  | refreshToken (report : RefreshTokenReport)
  deriving Repr

/-- The source session of a family, where there is one, is still the user's. -/
def sessionHolds (sessionId : Option String) (userId : String) : App Bool :=
  match sessionId with
  | none => pure true
  | some sessionId => do
    let sourceSession ← getSessionById sessionId
    pure (sourceSession.any (·.userId = userId))

def introspectRefreshToken (env : Env) (token : String) (introspector : ClientRow) : App IntrospectionAnswer := do
  let found ← getRefreshTokenByHash (hashOpaqueToken env token)
  match found.filter (·.revokedAt.isNone) with
  | none => pure .inactive
  | some record =>
    let now ← clock
    if now ≥ record.expiresAt then pure .inactive
    else
      let familyState ← query fun w => Do.getState (w.families record.familyId)
      if !familyState.any (!·.revoked) then pure .inactive
      else if !mayInspectClientTokens introspector record.clientId then pure .inactive
      else if !introspector.allowedResources.contains record.resource then pure .inactive
      else
        let (tokenClient, user) ← all 0 (getClientById record.clientId) (getUserById record.userId)
        let scopes := parseScopeString (some record.scope)
        if scopes.contains "groups" then pure .inactive
        else
          match tokenClient.filter (·.enabled), user.filter (!·.disabled) with
          | some tokenClient, some user =>
            let access ← evaluateUserTokenAccess env
              { userId := user.id, clientId := tokenClient.clientId, resourceUri := record.resource, scopes }
            if access.isSome then pure .inactive
            else
              let covered ← consentCoversScopes env user.id tokenClient.clientId record.resource scopes
                tokenClient.metadataFingerprint
              if !covered then pure .inactive
              else
                let holds ← sessionHolds record.sessionId user.id
                if !holds then pure .inactive
                else
                  let resource ← settled (resolveResourceForScopes env tokenClient (some record.resource) scopes)
                  match resource with
                  | .error _ => pure .inactive
                  | .ok _ => pure (.refreshToken { sub := record.userId, clientId := record.clientId, scope := record.scope,
                                                   aud := record.resource, exp := record.expiresAt })
          | _, _ => pure .inactive

/-- `introspectionResponse`: every answer is recorded. -/
def introspectionResponse (answer : IntrospectionAnswer) : App IntrospectionAnswer := do
  recordAudit
  pure answer

def handleIntrospect (env : Env) (jwtVerify : JwtVerify) (token : Option String) (introspector : ClientRow) :
    App IntrospectionAnswer := do
  match token with
  | none => introspectionResponse .invalidRequest
  | some token =>
    let jwtResult ← introspectAccessToken env jwtVerify token introspector
    match jwtResult with
    | some report => introspectionResponse (.accessToken report)
    | none =>
      let answer ← introspectRefreshToken env token introspector
      introspectionResponse answer

end Keyforge.OAuth
