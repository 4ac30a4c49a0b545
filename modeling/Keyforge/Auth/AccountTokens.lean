/-
Emailed capabilities (`auth/account-tokens.ts`, `auth/magic-link.ts`): magic links, password resets
and invitations, email verifications and email changes. Each is a one-time object addressed by the
token's hash that carries the security version the user had at issue; all but magic links also have a
row in D1. Tokens and row ids drawn at random are arguments, and the links mailed are not modelled.
-/
import Keyforge.Db.Users

namespace Keyforge.Auth

open Lib Db Do

/-- One call on the one-time object `tokenHash`. -/
def tokenObject {α : Type} (tokenHash : String)
    (call : Nat → OneTimeStorage AccountOneTimeTokenPayload → α × OneTimeStorage AccountOneTimeTokenPayload) : App α :=
  io fun w =>
    let r := call w.nowMs (w.oneTimeTokens tokenHash)
    (r.1, { w with oneTimeTokens := Function.update w.oneTimeTokens tokenHash r.2 })

def storeToken (tokenHash : String) (payload : AccountOneTimeTokenPayload) (ttlSeconds : Nat) : App Unit :=
  tokenObject tokenHash fun nowMs s => ((), s.store nowMs payload ttlSeconds)

def consumeToken (tokenHash : String) : App (ConsumeResult AccountOneTimeTokenPayload) :=
  tokenObject tokenHash fun nowMs s => s.consume nowMs

def peekToken (tokenHash : String) : App (ConsumeResult AccountOneTimeTokenPayload) :=
  query fun w => (w.oneTimeTokens tokenHash).peek w.nowMs

/-- What the history records when a capability reads the version it will carry. -/
def mintEvents (tokenHash userId : String) (db : Database) : List Event :=
  (db.users.get? userId).toList.map fun u => .minted tokenHash userId u.securityVersion

/-- `getUserSecurityVersion` of a minting function. -/
def mintedVersion (tokenHash userId : String) : App Nat := do
  let securityVersion ← d1Logged (mintEvents tokenHash userId) fun db => ((db.users.get? userId).map (·.securityVersion), db)
  match securityVersion with
  | none => throw (.error "account unavailable")
  | some securityVersion => pure securityVersion

/-! ## Email verifications and changes -/

-- The batches that insert a row abort when its user is gone (a foreign key).

/-- `purpose` is `emailVerification` or `emailChange`; the two functions differ in nothing else. -/
def createEmailToken (purpose : OneTimeTokenPurpose) (env : Env) (token id userId email : String) : App String := do
  let tokenHash := hashOpaqueToken env token
  let now ← clock
  let securityVersion ← mintedVersion tokenHash userId
  let stored ← d1 fun db =>
    if (db.users.get? userId).isSome then (true, { db with
      emailVerifications := (db.emailVerifications.update (fun r => r.userId = userId && r.consumedAt.isNone)
        (fun r => { r with consumedAt := some now }) fun _ => rfl).insert
          { id, userId, email, tokenHash, createdAt := now, expiresAt := now + TOKEN_TTL.emailVerification,
            consumedAt := none } })
    else (false, db)
  require stored .storage
  storeToken tokenHash { purpose, userId, email, redirectTo := none, securityVersion, reauthenticate := false }
    TOKEN_TTL.emailVerification
  pure token

def createEmailVerificationToken (env : Env) (token id userId email : String) : App String :=
  createEmailToken .emailVerification env token id userId email

def createEmailChangeToken (env : Env) (token id userId newEmail : String) : App String :=
  createEmailToken .emailChange env token id userId newEmail

/-- The row of a capability that is still open, with its user at the version it carries. -/
def emailTokenOpen (tokenHash : String) (payload : AccountOneTimeTokenPayload) (now : Nat) (db : Database)
    (r : EmailVerificationRow) : Bool :=
  r.tokenHash = tokenHash && r.userId = payload.userId && r.email = payload.email && r.consumedAt.isNone &&
    r.expiresAt > now && (db.users.get? payload.userId).any (·.securityVersion = payload.securityVersion)

def consumeEmailToken (purpose : OneTimeTokenPurpose) (env : Env) (token : String) :
    App (Option AccountOneTimeTokenPayload) := do
  let tokenHash := hashOpaqueToken env token
  match ← consumeToken tokenHash with
  | .notFound => pure none
  | .found payload =>
    if payload.purpose ≠ purpose then pure none
    else
      let now ← clock
      let changed ← d1 fun db => (db.emailVerifications.has (emailTokenOpen tokenHash payload now db), { db with
        emailVerifications := db.emailVerifications.update (emailTokenOpen tokenHash payload now db)
          (fun r => { r with consumedAt := some now }) fun _ => rfl })
      pure (if changed then some payload else none)

def consumeEmailVerificationToken (env : Env) (token : String) : App (Option AccountOneTimeTokenPayload) :=
  consumeEmailToken .emailVerification env token

def consumeEmailChangeToken (env : Env) (token : String) : App (Option AccountOneTimeTokenPayload) :=
  consumeEmailToken .emailChange env token

def peekEmailToken (env : Env) (token : String) (purpose : OneTimeTokenPurpose) :
    App (Option AccountOneTimeTokenPayload) := do
  let tokenHash := hashOpaqueToken env token
  match ← peekToken tokenHash with
  | .notFound => pure none
  | .found payload =>
    if payload.purpose ≠ purpose then pure none
    else
      let now ← clock
      let present ← select fun db => db.emailVerifications.has (emailTokenOpen tokenHash payload now db)
      pure (if present then some payload else none)

def peekEmailVerificationToken (env : Env) (token : String) : App (Option AccountOneTimeTokenPayload) :=
  peekEmailToken env token .emailVerification

def peekEmailChangeToken (env : Env) (token : String) : App (Option AccountOneTimeTokenPayload) :=
  peekEmailToken env token .emailChange

/-! ## Password resets and invitations -/

structure PasswordResetTokenOptions where
  redirectTo : Option String
  reauthenticate : Bool
  purpose : OneTimeTokenPurpose
  deriving DecidableEq, Repr

def createPasswordResetToken (env : Env) (token id userId email : String) (options : PasswordResetTokenOptions) :
    App String := do
  let tokenHash := hashOpaqueToken env token
  let now ← clock
  let securityVersion ← mintedVersion tokenHash userId
  let stored ← d1 fun db =>
    if (db.users.get? userId).isSome then (true, { db with
      passwordResetTokens := db.passwordResetTokens.insert
        { id, userId, tokenHash, createdAt := now, expiresAt := now + TOKEN_TTL.passwordReset, consumedAt := none } })
    else (false, db)
  require stored .storage
  storeToken tokenHash { purpose := options.purpose, userId, email, redirectTo := options.redirectTo, securityVersion,
                         reauthenticate := options.reauthenticate } TOKEN_TTL.passwordReset
  pure token

def createAccountInvitationToken (env : Env) (token id userId email : String) : App String :=
  createPasswordResetToken env token id userId email
    { redirectTo := some "/", reauthenticate := false, purpose := .accountInvitation }

def isResetPurpose (purpose : OneTimeTokenPurpose) : Bool :=
  purpose = .passwordReset || purpose = .accountInvitation

/-- The row of a reset that is still open; the user's version is asked apart. -/
def resetTokenOpen (tokenHash : String) (payload : AccountOneTimeTokenPayload) (now : Nat)
    (r : PasswordResetTokenRow) : Bool :=
  r.tokenHash = tokenHash && r.userId = payload.userId && r.consumedAt.isNone && r.expiresAt > now

def peekPasswordResetToken (env : Env) (token : String) : App (Option AccountOneTimeTokenPayload) := do
  let tokenHash := hashOpaqueToken env token
  match ← peekToken tokenHash with
  | .notFound => pure none
  | .found payload =>
    if !isResetPurpose payload.purpose then pure none
    else
      let now ← clock
      let present ← select fun db => db.passwordResetTokens.has (resetTokenOpen tokenHash payload now)
      if !present then pure none
      else
        let securityVersion ← getUserSecurityVersion payload.userId
        pure (if securityVersion = some payload.securityVersion then some payload else none)

def consumePasswordResetToken (env : Env) (token : String) : App (Option AccountOneTimeTokenPayload) := do
  let tokenHash := hashOpaqueToken env token
  match ← consumeToken tokenHash with
  | .notFound => pure none
  | .found payload =>
    if !isResetPurpose payload.purpose then pure none
    else
      let now ← clock
      let changed ← d1 fun db => (db.passwordResetTokens.has (resetTokenOpen tokenHash payload now), { db with
        passwordResetTokens := db.passwordResetTokens.update (resetTokenOpen tokenHash payload now)
          (fun r => { r with consumedAt := some now }) fun _ => rfl })
      pure (if changed then some payload else none)

/-! ## Magic links -/

structure MagicLinkInput where
  userId : String
  redirectTo : Option String
  reauthenticate : Bool
  deriving DecidableEq, Repr

def createMagicLink (env : Env) (token : String) (input : MagicLinkInput) : App String := do
  let tokenHash := hashOpaqueToken env token
  let user ← getUserById input.userId
  let securityVersion ← mintedVersion tokenHash input.userId
  match user.filter (!·.disabled) with
  | none => throw (.error "account unavailable")
  | some user =>
    storeToken tokenHash { purpose := .magicLink, userId := input.userId, email := user.email,
                           redirectTo := input.redirectTo, securityVersion, reauthenticate := input.reauthenticate }
      TOKEN_TTL.magicLink
    pure token

/-- The capability, if it is a magic link and its user is at the version it carries. -/
def currentMagicLink (result : ConsumeResult AccountOneTimeTokenPayload) : App (Option AccountOneTimeTokenPayload) := do
  match result with
  | .notFound => pure none
  | .found payload =>
    if payload.purpose ≠ .magicLink then pure none
    else
      let securityVersion ← getUserSecurityVersion payload.userId
      pure (if securityVersion = some payload.securityVersion then some payload else none)

def consumeMagicLink (env : Env) (token : String) : App (Option AccountOneTimeTokenPayload) := do
  currentMagicLink (← consumeToken (hashOpaqueToken env token))

/-- Inspect without consuming so mail scanners cannot burn a sign-in link. -/
def peekMagicLink (env : Env) (token : String) : App (Option AccountOneTimeTokenPayload) := do
  currentMagicLink (← peekToken (hashOpaqueToken env token))

end Keyforge.Auth
