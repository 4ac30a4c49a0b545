/-
Issuing, rotating and revoking refresh families (`tokens/refresh-token.ts`,
`tokens/refresh-token-revocation.ts`, `db/queries/tokens.ts`). A family lives in a Durable Object,
the authority for rotation, and in a row of `refresh_tokens`, the authority for revocation. Fresh
random values are arguments.
-/
import Keyforge.Env
import Keyforge.World
import Mathlib.Data.List.Sort

namespace Keyforge.Tokens

open Lib Db

/-! ## Reads and marks -/

structure RefreshTokenRecord where
  familyId : String
  userId : String
  clientId : String
  sessionId : Option String
  resource : String
  scope : String
  authTime : Nat
  expiresAt : Nat
  revokedAt : Option Nat
  deriving DecidableEq, Repr

def toRecord (r : RefreshTokenRow) : RefreshTokenRecord :=
  { familyId := r.id, userId := r.userId, clientId := r.clientId, sessionId := r.sessionId, resource := r.resource,
    scope := r.scope, authTime := r.authTime, expiresAt := r.expiresAt, revokedAt := r.revokedAt }

def getRefreshTokenByHash (tokenHash : String) : App (Option RefreshTokenRecord) :=
  select fun db => (db.refreshTokens.rows.find? (·.tokenHash = tokenHash)).map toRecord

def getRefreshTokenByFamilyId (familyId : String) : App (Option RefreshTokenRecord) :=
  select fun db => (db.refreshTokens.get? familyId).map toRecord

theorem revoked_id (now : Nat) (r : RefreshTokenRow) : ({ r with revokedAt := some now } : RefreshTokenRow).id = r.id :=
  rfl

/-- `UPDATE refresh_tokens SET revoked_at = now WHERE p AND revoked_at IS NULL`. -/
def revokeRows (now : Nat) (p : RefreshTokenRow → Bool) (db : Database) : Database :=
  { db with
    refreshTokens := db.refreshTokens.update (fun r => p r && r.revokedAt.isNone)
      (fun r => { r with revokedAt := some now }) (revoked_id now) }

/-- The ids that statement returns. -/
def revokedIds (p : RefreshTokenRow → Bool) (db : Database) : List String :=
  (db.refreshTokens.select fun r => p r && r.revokedAt.isNone).map (·.id)

def markRefreshTokenRevoked (familyId : String) : App Unit := do
  let now ← clock
  d1Logged (fun _ => [.familiesRevoked [familyId]]) fun db => ((), revokeRows now (·.id = familyId) db)

/-! ## Family objects -/

def initFamily (familyId : String) (data : Do.RefreshFamilyInit) : App Unit :=
  familyObject familyId fun now s => ((), Do.init now data s)

def revokeFamily (familyId : String) : App Unit :=
  familyObject familyId fun _ s => ((), Do.revoke s)

/-- What the history records of a rotation. -/
def rotateEvents (familyId newTokenHash : String) : Do.RotateResult → List Event
  | .rotated _ => [.rotated familyId newTokenHash]
  | _ => []

def rotateFamily (familyId presentedHash newTokenHash expectedClientId nextScope : String) : App Do.RotateResult :=
  io fun w =>
    let r := Do.rotate w.nowSeconds presentedHash newTokenHash expectedClientId nextScope (w.families familyId)
    (r.1, { w with
      families := Function.update w.families familyId r.2, log := rotateEvents familyId newTokenHash r.1 ++ w.log })

/-- One attempt of `revokeRefreshFamilyDurableObjects`: every pending family at once, and the ones
whose call was rejected. -/
def revokeFamilies : List String → App (List String)
  | [] => pure []
  | familyId :: rest => do
    let (result, pending) ← all (rest.length) (settled (revokeFamily familyId)) (revokeFamilies rest)
    pure (match result with
      | .ok _ => pending
      | .error _ => familyId :: pending)

/-- Mirror a committed D1 revocation into the family objects, with one retry. Failures are only
reported. -/
def revokeRefreshFamilyDurableObjects (familyIds : List String) : App Unit := do
  let pending ← revokeFamilies familyIds.dedup
  let _ ← revokeFamilies pending
  pure ()

/-- `revokeMatchingFamilies`: revoke the rows `p` selects in D1, then their objects. -/
def revokeMatchingFamilies (p : RefreshTokenRow → Bool) : App Nat := do
  let now ← clock
  let familyIds ← d1Logged (fun db => [.familiesRevoked (revokedIds p db)]) fun db =>
    (revokedIds p db, revokeRows now p db)
  revokeRefreshFamilyDurableObjects familyIds
  pure familyIds.length

def revokeRefreshFamiliesByUserClient (userId clientId : String) : App Nat :=
  revokeMatchingFamilies fun r => r.userId = userId ∧ r.clientId = clientId

def revokeRefreshFamiliesBySessionId (sessionId : String) : App Nat :=
  revokeMatchingFamilies fun r => r.sessionId = some sessionId

def revokeRefreshFamiliesForUser (userId : String) : App Nat :=
  revokeMatchingFamilies fun r => r.userId = userId

def revokeRefreshFamiliesForOtherUserSessions (userId keepSessionId : String) : App Nat :=
  revokeMatchingFamilies fun r => r.userId = userId ∧ r.sessionId ≠ some keepSessionId

/-! ## Issuance -/

structure IssueRefreshInput where
  userId : String
  clientId : String
  sessionId : Option String
  resource : String
  scope : String
  authTime : Nat
  rememberMe : Bool
  deriving DecidableEq, Repr

structure IssuedRefreshToken where
  token : String
  familyId : String
  expiresAt : Nat
  deriving DecidableEq, Repr

/-- The guard of the insert: a live session of an enabled user, or an enabled user when the family
carries no session. -/
def sessionGuard (now : Nat) (input : IssueRefreshInput) (db : Database) : Bool :=
  match input.sessionId with
  | none => (db.users.get? input.userId).any fun u => !u.disabled
  | some sessionId =>
    (db.sessions.get? sessionId).any (fun s => s.userId = input.userId ∧ s.revokedAt = none ∧ s.expiresAt > now) &&
      (db.users.get? input.userId).any fun u => !u.disabled

/-- The guarded insert; the result is whether a row was inserted. -/
def insertStatement (now : Nat) (input : IssueRefreshInput) (row : RefreshTokenRow) (db : Database) : Bool × Database :=
  if sessionGuard now input db then (true, { db with refreshTokens := db.refreshTokens.insert row })
  else (false, db)

/-- A live family of the user and client. -/
def activeFamily (now : Nat) (userId clientId : String) (r : RefreshTokenRow) : Bool :=
  r.userId = userId ∧ r.clientId = clientId ∧ r.revokedAt = none ∧ r.expiresAt > now

/-- The families over the cap, oldest first, never the one just issued. -/
def excessFamilies (now : Nat) (userId clientId familyId : String) (db : Database) : List RefreshTokenRow :=
  let active := db.refreshTokens.select (activeFamily now userId clientId)
  ((active.filter (·.id ≠ familyId)).insertionSort fun a b =>
      a.createdAt < b.createdAt ∨ (a.createdAt = b.createdAt ∧ a.id ≤ b.id)).take
    (active.length - REFRESH_TOKEN_POLICY.maximumActiveFamiliesPerUserClient)

/-- Revoke the families over the cap, if the issued one is there and unrevoked. -/
def pruneStatement (now : Nat) (userId clientId familyId : String) (db : Database) : List String × Database :=
  let excess := (excessFamilies now userId clientId familyId db).map (·.id)
  if (db.refreshTokens.get? familyId).any (·.revokedAt.isNone) then
    (excess, { db with
      refreshTokens := db.refreshTokens.update (fun r => r.id ∈ excess)
        (fun r => { r with revokedAt := some now }) (revoked_id now) })
  else ([], db)

/-- The row `issueRefreshToken` inserts. -/
def issuedRow (now : Nat) (familyId tokenHash : String) (expiresAt : Nat) (input : IssueRefreshInput) :
    RefreshTokenRow :=
  { id := familyId, tokenHash := tokenHash, userId := input.userId, clientId := input.clientId,
    sessionId := input.sessionId, resource := input.resource, scope := input.scope, generation := 0,
    rememberMe := input.rememberMe, createdAt := now, lastRotatedAt := now, expiresAt := expiresAt,
    authTime := input.authTime, revokedAt := none }

/-- The batch: insert, then prune. -/
def issueBatch (now : Nat) (input : IssueRefreshInput) (row : RefreshTokenRow) (db : Database) :
    (Bool × List String) × Database :=
  let inserted := insertStatement now input row db
  let pruned := pruneStatement now input.userId input.clientId row.id inserted.2
  ((inserted.1, pruned.1), pruned.2)

/-- What the history records of the batch. -/
def issueEvents (now : Nat) (input : IssueRefreshInput) (row : RefreshTokenRow) (db : Database) : List Event :=
  [if sessionGuard now input db then .familyInserted row.id else .familyRefused row.id]

def issueRefreshToken (env : Env) (input : IssueRefreshInput) (familyId secret : String) :
    App IssuedRefreshToken := do
  let token := familyId ++ "." ++ secret
  let tokenHash := hashOpaqueToken env token
  let now ← clock
  let ttl := if input.rememberMe then TOKEN_TTL.refreshTokenRememberMe else TOKEN_TTL.refreshToken
  let expiresAt := now + ttl
  initFamily familyId
    { userId := input.userId, clientId := input.clientId, resource := input.resource, scope := input.scope,
      authTime := input.authTime, currentTokenHash := tokenHash, absoluteExpiresAt := expiresAt }
  let row := issuedRow now familyId tokenHash expiresAt input
  let (inserted, prunedFamilyIds) ←
    tryCatch (d1Logged (issueEvents now input row) (issueBatch now input row)) fun error => do
      revokeFamily familyId
      throw error
  if !inserted then
    revokeFamily familyId
    throw (.oauth .invalidGrant "The authorization session is no longer active"
      "session or user changed while creating the refresh token family")
  else
    revokeRefreshFamilyDurableObjects prunedFamilyIds
    pure { token, familyId, expiresAt }

/-! ## Rotation -/

inductive RotateOutcome where
  | rotated (token userId clientId resource scope : String) (authTime : Nat)
  | reuseDetected (familyId : String)
  | tooSoon (retryAfterSeconds : Nat)
  | reauthorizationRequired (familyId : String)
  | invalid
  deriving DecidableEq, Repr

/-- `presentedToken.split(".")[0]`. -/
def familyIdOf (presentedToken : String) : String :=
  String.ofList (presentedToken.toList.takeWhile (· ≠ '.'))

/-- The mirror write of a rotation; the result is whether it matched the row. -/
def mirrorStatement (now : Nat) (familyId tokenHash scope : String) (generation : Nat) (db : Database) :
    Bool × Database :=
  ((db.refreshTokens.get? familyId).any (·.revokedAt.isNone),
    { db with
      refreshTokens := db.refreshTokens.update (fun r => r.id = familyId ∧ r.revokedAt = none)
        (fun r => { r with tokenHash := tokenHash, scope := scope, generation := generation, lastRotatedAt := now })
        fun _ => rfl })

def mirrorEvents (familyId tokenHash : String) (db : Database) : List Event :=
  [if (db.refreshTokens.get? familyId).any (·.revokedAt.isNone) then .mirrored familyId tokenHash
    else .mirrorLost familyId tokenHash]

/-- The mirror write. -/
def mirror (now : Nat) (familyId tokenHash scope : String) (generation : Nat) : App Bool :=
  ioLogged [.mirrorLost familyId tokenHash] fun w =>
    let r := mirrorStatement now familyId tokenHash scope generation w.db
    (r.1, { w with db := r.2, log := mirrorEvents familyId tokenHash w.db ++ w.log })

/-- The revocation of an object that is ahead of its row. -/
def compensate (familyId tokenHash : String) : App Unit :=
  ioLogged [.compensationFailed familyId tokenHash] fun w =>
    ((), { w with families := Function.update w.families familyId (Do.revoke (w.families familyId)) })

def rotateRefreshToken (env : Env) (presentedToken expectedClientId nextScope secret : String) :
    App RotateOutcome := do
  let familyId := familyIdOf presentedToken
  let presentedHash := hashOpaqueToken env presentedToken
  let newToken := familyId ++ "." ++ secret
  let newHash := hashOpaqueToken env newToken
  let result ← rotateFamily familyId presentedHash newHash expectedClientId nextScope
  match result with
  | .rotated m =>
    let now ← clock
    let updated ← tryCatch (mirror now familyId newHash m.scope m.generation) fun error => do
      compensate familyId newHash
      throw error
    if !updated then
      compensate familyId newHash
      pure .invalid
    else
      pure (.rotated newToken m.userId m.clientId m.resource m.scope (m.authTime.getD m.createdAt))
  | .reuseDetected _ =>
    let now ← clock
    -- unlike `markRefreshTokenRevoked`, this overwrites an earlier `revoked_at`
    d1Logged (fun _ => [.familiesRevoked [familyId]]) fun db => ((), { db with
      refreshTokens := db.refreshTokens.update (fun r => r.id = familyId)
        (fun r => { r with revokedAt := some now }) (revoked_id now) })
    pure (.reuseDetected familyId)
  | .tooSoon retryAfterSeconds => pure (.tooSoon retryAfterSeconds)
  | .generationLimit _ =>
    markRefreshTokenRevoked familyId
    pure (.reauthorizationRequired familyId)
  | .revoked => pure .invalid
  | .expired => pure .invalid
  | .invalid => pure .invalid

end Keyforge.Tokens
