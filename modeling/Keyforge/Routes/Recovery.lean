/-
The routes that redeem an emailed capability (`routes/magic-link.ts`, `routes/recovery.ts`). The CSRF
token has been verified and the rate limits have let the request through; ids, tokens and salts drawn
at random are arguments. A refused request is `none` or `false`.
-/
import Keyforge.Auth.AccountTokens
import Keyforge.OAuth.Issue

namespace Keyforge.Routes

open Db Auth OAuth

def isAccountCapabilityToken (value : String) : Bool :=
  Security.isOpaqueToken value 32

/-! ## Magic links -/

/-- `POST /login/magic/callback`; `previous` is the session the request came with. -/
structure MagicForm where
  token : String
  previous : Option SessionRecord
  sessionId : String
  sessionToken : String
  deriving DecidableEq, Repr

/-- The link's first use marks the address as verified. -/
def markEmailVerified (user : UserRow) : App Unit := do
  if !user.emailVerified then
    let _ ← updateUser user.id { name := none, disabled := none, emailVerified := some true }
    pure ()

/-- The end of the route, for a payload that was consumed. -/
def signInWithLink (env : Env) (form : MagicForm) (payload : AccountOneTimeTokenPayload) : App (Option CreatedSession) := do
  let user ← getUserById payload.userId
  match user.filter fun user => !user.disabled && user.email = payload.email with
  | none => pure none
  | some user =>
    markEmailVerified user
    let session ← createSessionAtSecurityVersion env
      { userId := user.id, authMethod := .magicLink, ttlSeconds := SESSION_TTL.default, passkeyAuthenticated := false }
      payload.securityVersion form.sessionId form.sessionToken
    match session with
    | none => pure none
    | some session =>
      if payload.reauthenticate then replaceReauthenticatedSession form.previous session user.id
      recordAudit
      pure (some session)

def magicCallback (env : Env) (form : MagicForm) : App (Option CreatedSession) := do
  if !isAccountCapabilityToken form.token then pure none
  else
    -- the peeked payload only chooses the link of an error page
    let _ ← peekMagicLink env form.token
    match ← consumeMagicLink env form.token with
    | none => pure none
    | some payload => signInWithLink env form payload

/-! ## Password resets -/

/-- `POST /password/reset`. -/
structure ResetForm where
  token : String
  password : String
  confirmation : String
  credentialId : String
  salt : String
  deriving DecidableEq, Repr

/-- The account of a reset: enabled, and with the address the capability was sent to. -/
def resetUserOf (payload : AccountOneTimeTokenPayload) : App (Option UserRow) := do
  let user ← getUserById payload.userId
  pure (user.filter fun user => !user.disabled && user.email = payload.email)

/-- The end of the route, for a payload that was consumed. -/
def applyReset (env : Env) (form : ResetForm) (payload : AccountOneTimeTokenPayload) : App Bool := do
  match ← resetUserOf payload with
  | none => pure false
  | some user =>
    let set ← setUserPasswordAtSecurityVersion env
      [.redeemed (hashOpaqueToken env form.token) payload.userId payload.securityVersion]
      { userId := user.id, password := form.password, expectedSecurityVersion := payload.securityVersion,
        verifyEmail := payload.purpose = .accountInvitation, credentialId := form.credentialId, salt := form.salt }
    if set then recordAudit
    pure set

def passwordReset (env : Env) (form : ResetForm) : App Bool := do
  if !isAccountCapabilityToken form.token then pure false
  else
    match ← peekPasswordResetToken env form.token with
    | none => pure false
    | some pending =>
      match ← resetUserOf pending with
      | none => pure false
      | some user =>
        let minimum := minimumPasswordLength (← isUserAdmin user.id)
        if utf16Length form.password < minimum || utf16Length form.password > PASSWORD_POLICY.maximum ||
            form.password ≠ form.confirmation then pure false
        else
          match ← consumePasswordResetToken env form.token with
          | none => pure false
          | some payload => applyReset env form payload

/-! ## Email verifications and changes -/

/-- `POST /account/email/verify`. -/
def emailVerify (env : Env) (token : String) : App Bool := do
  if !isAccountCapabilityToken token then pure false
  else
    match ← consumeEmailVerificationToken env token with
    | none => pure false
    | some payload =>
      let user ← getUserById payload.userId
      match user.filter (·.email = payload.email) with
      | none => pure false
      | some user =>
        let _ ← updateUser user.id { name := none, disabled := none, emailVerified := some true }
        recordAudit
        pure true

/-- The end of `POST /account/email/change/verify`, for a payload that was consumed. -/
def applyEmailChange (env : Env) (token : String) (payload : AccountOneTimeTokenPayload) : App UpdateUserEmailResult := do
  let user ← getUserById payload.userId
  match user.filter (!·.disabled) with
  | none => pure .notFound
  | some _ =>
    let result ← updateUserEmail env
      [.redeemed (hashOpaqueToken env token) payload.userId payload.securityVersion]
      payload.userId payload.email payload.securityVersion
    if result = .updated then recordAudit
    pure result

/-- `POST /account/email/change/verify`. -/
def emailChange (env : Env) (token : String) : App UpdateUserEmailResult := do
  if !isAccountCapabilityToken token then pure .notFound
  else
    match ← consumeEmailChangeToken env token with
    | none => pure .notFound
    | some payload => applyEmailChange env token payload

end Keyforge.Routes
