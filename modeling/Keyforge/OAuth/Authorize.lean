/-
Authorization requests (`oauth/authorize.ts`): the checks in their fixed order, each of which answers
with an error page as long as no redirect URI is proven and with a redirect after that; and the issue of
the authorization code.
-/
import Keyforge.OAuth.AuthorizationClient
import Keyforge.OAuth.Resources

namespace Keyforge.OAuth

open Lib Db Do Security

/-! ## Parsing -/

inductive AuthorizePrompt where
  | none
  | login
  | consent
  deriving DecidableEq, Repr

/-- `AUTHORIZE_PROMPTS`. -/
def AuthorizePrompt.parse : String → Option AuthorizePrompt
  | "none" => some .none
  | "login" => some .login
  | "consent" => some .consent
  | _ => Option.none

/-- The words of a text separated by white space, `raw.trim().split(/\s+/).filter(Boolean)`, are those
of a scope string. -/
def parsePrompts (raw : Option String) : Option (List AuthorizePrompt) :=
  match raw with
  | none => some []
  | some raw =>
    let values := (parseScopeString (some raw)).eraseDups
    match values.mapM AuthorizePrompt.parse with
    | none => none
    | some prompts => if prompts = [] || (prompts.contains .none && prompts.length ≠ 1) then none else some prompts

def MAX_SAFE_INTEGER : Nat := 2 ^ 53 - 1

def isDigit (c : Char) : Bool :=
  '0' ≤ c && c ≤ '9'

/-- `/^(0|[1-9]\d*)$/`. -/
def matchesDecimal (raw : String) : Bool :=
  raw = "0" || (!raw.toList.isEmpty && raw.toList.head? ≠ some '0' && raw.toList.all isDigit)

/-- The number that decimal digits denote. -/
def decimal (raw : String) : Nat :=
  raw.toList.foldl (fun n c => 10 * n + (c.toNat - '0'.toNat)) 0

/-- `none` is the source's `undefined`: a value that is no safe non-negative integer. -/
def parseMaxAge (raw : Option String) : Option (Option Nat) :=
  match raw with
  | none => some none
  | some raw =>
    if !matchesDecimal raw then none
    else if decimal raw ≤ MAX_SAFE_INTEGER then some (some (decimal raw))
    else none

/-! ## Validation -/

structure AuthorizeParams where
  clientId : String
  client : ClientRow
  redirectUri : String
  scopes : List String
  resource : String
  state : Option String
  nonce : Option String
  codeChallenge : String
  prompts : List AuthorizePrompt
  maxAge : Option Nat
  deriving DecidableEq, Repr

inductive InvalidRequestReason where
  | invalidRequest
  | invalidClient
  | invalidRedirectUri
  deriving DecidableEq, Repr

inductive AuthorizeValidation where
  | invalidRequestPage (description : String) (reason : InvalidRequestReason) (clientId : Option String)
  | errorRedirect (redirectUri : String) (state : Option String) (error : OAuthErrorCode) (description : String)
  | ok (params : AuthorizeParams)
  deriving DecidableEq, Repr

/-- The parameters that may not be repeated once the redirect URI is proven. -/
def SINGLE_PARAMETERS : List String :=
  ["response_type", "scope", "state", "nonce", "code_challenge", "code_challenge_method", "resource", "prompt", "max_age"]

/-- The checks that end in a redirect: the parameters that come from the query alone. -/
def validateParams (env : Env) (query : SearchParams) (clientId : String) (client : ClientRow) (redirectUri : String) :
    App AuthorizeValidation := do
  match SINGLE_PARAMETERS.find? fun name => (query.getAll name).length > 1 with
  | some duplicateParameter =>
    pure (.errorRedirect redirectUri none .invalidRequest (duplicateParameter ++ " must not appear more than once"))
  | none =>
    let state := query.get "state"
    if !env.yolo && !client.allowedGrantTypes.contains "authorization_code" then
      pure (.errorRedirect redirectUri state .unauthorizedClient "Flow not permitted for client")
    else if !env.yolo && query.get "response_type" ≠ some "code" then
      pure (.errorRedirect redirectUri state .unsupportedResponseType "response_type must be code")
    else
      let codeChallenge := query.get "code_challenge"
      if !env.yolo && (!codeChallenge.any isValidS256Challenge || query.get "code_challenge_method" ≠ some "S256") then
        pure (.errorRedirect redirectUri state .invalidRequest "PKCE with S256 is required")
      else
        let scopes := parseScopeString (query.get "scope")
        if !env.yolo && scopes = [] then
          pure (.errorRedirect redirectUri state .invalidScope "At least one scope is required")
        else match parsePrompts (query.get "prompt") with
          | none => pure (.errorRedirect redirectUri state .invalidRequest
              "prompt must contain only none, login, or consent; none cannot be combined")
          | some prompts => match parseMaxAge (query.get "max_age") with
            | none => pure (.errorRedirect redirectUri state .invalidRequest "max_age must be a non-negative integer")
            | some maxAge =>
              tryCatch (do
                let validatedScopes ← validateRequestedScopes scopes client.allowedScopes
                let resource ← resolveResourceForScopes env client (query.get "resource") validatedScopes
                pure (.ok { clientId, client, redirectUri, scopes := validatedScopes, resource, state,
                            nonce := query.get "nonce", codeChallenge := codeChallenge.getD "", prompts, maxAge }))
                fun error => match error with
                  | .oauth code description _ => pure (.errorRedirect redirectUri state code description)
                  | error => throw error

/-- The checks that end in a page: nothing is sent to a redirect URI that is not proven registered. -/
def validateAuthorizeRequest (env : Env) (fetched : Option ClientIdMetadata) (query : SearchParams) :
    App AuthorizeValidation := do
  if !env.yolo && (validateOAuthParameterSet env query).isSome then
    pure (.invalidRequestPage "The authorization request contains invalid or oversized parameters." .invalidRequest none)
  else if (query.getAll "client_id").length ≠ 1 then
    pure (.invalidRequestPage "client_id must appear exactly once." .invalidRequest none)
  else match query.get "client_id" with
    | none => pure (.invalidRequestPage "Missing client_id." .invalidRequest none)
    | some clientId =>
      let resolved ← tryCatch (Except.ok <$> resolveAuthorizationClient env fetched clientId
          (if (query.getAll "resource").length = 1 then query.get "resource" else none)) fun error => match error with
        | .clientIdMetadata _ => pure (.error ())
        | error => throw error
      match resolved with
      | .error () => pure (.invalidRequestPage "The client metadata document could not be validated." .invalidClient clientId)
      | .ok found => match found.filter (·.enabled) with
        | none => pure (.invalidRequestPage "Unknown client." .invalidClient clientId)
        | some client =>
          if (query.getAll "redirect_uri").length ≠ 1 then
            pure (.invalidRequestPage "redirect_uri must appear exactly once." .invalidRedirectUri clientId)
          else match query.get "redirect_uri" with
            | none => pure (.invalidRequestPage "Invalid redirect_uri." .invalidRedirectUri clientId)
            | some redirectUri =>
              if !env.yolo && !isRegisteredRedirectUri env client redirectUri then
                pure (.invalidRequestPage "Invalid redirect_uri." .invalidRedirectUri clientId)
              else validateParams env query clientId client redirectUri

/-! ## Issuing the code -/

structure AuthorizationSubject where
  user : UserRow
  sessionId : String
  authTime : Nat
  deriving DecidableEq, Repr

/-- `AUTHORIZATION_CODE.getByName(hash).store`. -/
def storeCode (codeHash : String) (payload : AuthorizationCodePayload) (ttlSeconds : Nat) : App Unit :=
  io fun w => ((), { w with
    codes := Function.update w.codes codeHash ((w.codes codeHash).store w.nowMs payload ttlSeconds) })

def codePayload (env : Env) (params : AuthorizeParams) (subject : AuthorizationSubject) (resource : Option ResourceRow) :
    AuthorizationCodePayload :=
  { issuer := env.issuer, clientId := params.clientId, userId := subject.user.id, redirectUri := params.redirectUri,
    scope := serializeScopes params.scopes, resource := params.resource,
    resourceRequired := resource.any (·.mcpEnabled), metadataFingerprint := params.client.metadataFingerprint,
    codeChallenge := params.codeChallenge, nonce := params.nonce, authTime := subject.authTime,
    sessionId := subject.sessionId }

/-- `code` is drawn at random. -/
def issueAuthorizationCode (env : Env) (code : String) (params : AuthorizeParams) (subject : AuthorizationSubject) :
    App String := do
  let resource ← getResourceByUri params.resource
  storeCode (hashOpaqueToken env code) (codePayload env params subject resource) TOKEN_TTL.authorizationCode
  pure code

end Keyforge.OAuth
