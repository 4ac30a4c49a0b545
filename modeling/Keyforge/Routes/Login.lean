/-
The login routes that verify a credential and then create a session: `POST /login` (`routes/login.ts`)
and `POST /webauthn/login/verify` (`routes/webauthn.ts`). The CSRF token has been verified and the
rate limits have let the request through; ids and tokens drawn at random are arguments.
-/
import Keyforge.Auth.Passkey
import Keyforge.Db.Users
import Keyforge.OAuth.Issue

namespace Keyforge.Routes

open Db Auth OAuth

def EMAIL_INPUT_MAX_LENGTH : Nat := 254

/-- `POST /login`; `identifier` is trimmed, `previous` is the session the request came with. -/
structure LoginForm where
  identifier : String
  password : String
  reauthenticating : Bool
  previous : Option SessionRecord
  sessionId : String
  token : String
  deriving DecidableEq, Repr

/-- The end both routes share: create the session, retire the one it replaces, audit. -/
def startSession (env : Env) (input : CreateSessionInput) (reauthenticating : Bool) (previous : Option SessionRecord)
    (sessionId token : String) : App CreatedSession := do
  let session ← createSession env input sessionId token
  if reauthenticating then replaceReauthenticatedSession previous session input.userId
  recordAudit
  pure session

/-- The session, or nothing when the login is refused (401). -/
def login (env : Env) (form : LoginForm) : App (Option CreatedSession) := do
  let user ← if utf16Length form.identifier ≤ EMAIL_INPUT_MAX_LENGTH then
      getUserByLogin (env.trimLowerCase form.identifier)
    else pure none
  let passwordValid ← verifyLoginPassword env form.sessionId (user.map (·.id)) form.password (some form.identifier)
  match user.filter fun user => !user.disabled && passwordValid with
  | none =>
    recordAudit
    pure none
  | some user =>
    let session ← startSession env
      { userId := user.id, authMethod := .password, ttlSeconds := SESSION_TTL.default, passkeyAuthenticated := false }
      form.reauthenticating form.previous form.sessionId form.token
    pure (some session)

/-- `POST /webauthn/login/verify`; `ceremonyId` is the ceremony's cookie. -/
structure PasskeyForm where
  ceremonyId : Option String
  response : AuthenticationResponse
  reauthenticating : Bool
  previous : Option SessionRecord
  sessionId : String
  token : String
  deriving DecidableEq, Repr

/-- The session, or nothing when the challenge or the assertion is refused (400). -/
def passkeyLogin (env : Env) (form : PasskeyForm) : App (Option CreatedSession) := do
  let challenge ← consumeChallenge env form.ceremonyId
  match challenge.filter (·.kind = .authentication) with
  | none => pure none
  | some challenge =>
    let user ← match ← verifyAuthentication env form.sessionId form.response challenge.challenge with
      | none => pure none
      | some userId => getUserById userId
    match user.filter (!·.disabled) with
    | none =>
      recordAudit
      pure none
    | some user =>
      let session ← startSession env
        { userId := user.id, authMethod := .passkey, ttlSeconds := SESSION_TTL.default, passkeyAuthenticated := true }
        form.reauthenticating form.previous form.sessionId form.token
      pure (some session)

end Keyforge.Routes
