/-
Browser sessions (`auth/session.ts`): creation, lookup and the four revocations, each of which
revokes sessions and their refresh families in one D1 batch before the family objects hear of it.
-/
import Keyforge.Tokens.Rules

namespace Keyforge.Auth

open Lib Db Tokens

/-! ## Creation -/

structure CreateSessionInput where
  userId : String
  authMethod : AuthMethod
  ttlSeconds : Nat
  passkeyAuthenticated : Bool
  deriving DecidableEq, Repr

structure CreatedSession where
  sessionId : String
  token : String
  expiresAt : Nat
  deriving DecidableEq, Repr

/-- The row both creation functions insert. -/
def createdRow (env : Env) (now : Nat) (input : CreateSessionInput) (sessionId token : String) : SessionRow :=
  { id := sessionId, userId := input.userId, tokenHash := hashOpaqueToken env token, authMethod := input.authMethod,
    authTime := now, passkeyAuthenticated := input.passkeyAuthenticated, createdAt := now, lastSeenAt := now,
    expiresAt := now + input.ttlSeconds, revokedAt := none }

/-- `INSERT INTO sessions … SELECT … FROM users WHERE id = ? AND guard`; the result is whether a row
was inserted. -/
def insertSession (guard : UserRow → Bool) (row : SessionRow) (db : Database) : Bool × Database :=
  if (db.users.get? row.userId).any guard then (true, { db with sessions := db.sessions.insert row }) else (false, db)

def sessionEvents (guard : UserRow → Bool) (row : SessionRow) (db : Database) : List Event :=
  if (db.users.get? row.userId).any guard then [.sessionCreated row.id row.userId] else []

def createSession (env : Env) (input : CreateSessionInput) (sessionId token : String) : App CreatedSession := do
  let now ← clock
  let row := createdRow env now input sessionId token
  let inserted ← d1Logged (sessionEvents (fun u => !u.disabled) row) (insertSession (fun u => !u.disabled) row)
  require inserted (.app 403 "This account is unavailable")
  pure { sessionId, token, expiresAt := row.expiresAt }

/-- The guard of a capability's session: the user is enabled and still at the expected version. -/
def atVersion (expectedSecurityVersion : Nat) (u : UserRow) : Bool :=
  !u.disabled && u.securityVersion = expectedSecurityVersion

def createSessionAtSecurityVersion (env : Env) (input : CreateSessionInput) (expectedSecurityVersion : Nat)
    (sessionId token : String) : App (Option CreatedSession) := do
  let now ← clock
  let row := createdRow env now input sessionId token
  let inserted ← d1Logged (sessionEvents (atVersion expectedSecurityVersion) row)
    (insertSession (atVersion expectedSecurityVersion) row)
  pure (if inserted then some { sessionId, token, expiresAt := row.expiresAt } else none)

/-! ## Lookup -/

structure SessionRecord where
  id : String
  userId : String
  authMethod : AuthMethod
  authTime : Nat
  passkeyAuthenticated : Bool
  createdAt : Nat
  lastSeenAt : Nat
  expiresAt : Nat
  deriving DecidableEq, Repr

def toSession (s : SessionRow) : SessionRecord :=
  { id := s.id, userId := s.userId, authMethod := s.authMethod, authTime := s.authTime,
    passkeyAuthenticated := s.passkeyAuthenticated, createdAt := s.createdAt, lastSeenAt := s.lastSeenAt,
    expiresAt := s.expiresAt }

/-- Load a live session by id. The row is read first and the clock after it. -/
def getSessionById (sessionId : String) : App (Option SessionRecord) := do
  let row ← select fun db => db.sessions.get? sessionId
  match row with
  | none => pure none
  | some s =>
    if s.revokedAt ≠ none then pure none
    else
      let now ← clock
      pure (if now ≥ s.expiresAt then none else some (toSession s))

/-! ## Revocation -/

/-- `UPDATE sessions SET revoked_at = now WHERE p AND revoked_at IS NULL`. -/
def revokeSessionRows (now : Nat) (p : SessionRow → Bool) (db : Database) : Database :=
  { db with
    sessions := db.sessions.update (fun s => p s && s.revokedAt.isNone)
      (fun s => { s with revokedAt := some now }) fun _ => rfl }

/-- The sessions a revocation batch covers, already revoked or not. -/
def coveredSessions (p : SessionRow → Bool) (db : Database) : List String :=
  (db.sessions.select p).map (·.id)

/-- A revocation batch: the sessions `p` selects, then the families `q` selects. The families'
predicate may look at the sessions. -/
def revokeBatch (now : Nat) (p : SessionRow → Bool) (q : Database → RefreshTokenRow → Bool) (db : Database) :
    List String × Database :=
  let db' := revokeSessionRows now p db
  (revokedIds (q db') db', revokeRows now (q db') db')

/-- The two statements that close a security transition: all sessions and families of the user, if
the transition took effect. -/
def revokeAccessIf (effective : Bool) (now : Nat) (userId : String) (db : Database) : List String × Database :=
  if effective then revokeBatch now (·.userId = userId) (fun _ r => r.userId = userId) db else ([], db)

theorem revokeAccessIf_users (effective : Bool) (now : Nat) (userId : String) (db : Database) :
    (revokeAccessIf effective now userId db).2.users = db.users := by
  cases effective <;> rfl

def accessEvents (effective : Bool) (userId : String) : List Event :=
  if effective then [.userRevoked userId] else []

/-- What the history records of the batch; `user` is set when it ends all access of a user. -/
def revokeEvents (user : Option String) (now : Nat) (p : SessionRow → Bool)
    (q : Database → RefreshTokenRow → Bool) (db : Database) : List Event :=
  user.toList.map .userRevoked ++
    [.sessionsRevoked (coveredSessions p db), .familiesRevoked (revokeBatch now p q db).1]

/-- The revocations of `session.ts`: the batch, then the family objects. The result is how many
sessions the first statement changed. -/
def revokeSessions (user : Option String) (p : SessionRow → Bool) (q : Database → RefreshTokenRow → Bool) :
    App Nat := do
  let now ← clock
  let (changes, familyIds) ← d1Logged (revokeEvents user now p q) fun db =>
    (((db.sessions.select fun s => p s && s.revokedAt.isNone).length, (revokeBatch now p q db).1),
      (revokeBatch now p q db).2)
  revokeRefreshFamilyDurableObjects familyIds
  pure changes

def revokeSessionByToken (env : Env) (token : String) : App Unit := do
  let tokenHash := hashOpaqueToken env token
  let _ ← revokeSessions none (fun s => s.tokenHash = tokenHash) fun db r =>
    r.sessionId.any fun sessionId => (db.sessions.get? sessionId).any fun s => s.tokenHash = tokenHash
  pure ()

def revokeAllUserSessions (userId : String) : App Unit := do
  let _ ← revokeSessions userId (fun s => s.userId = userId) fun _ r => r.userId = userId
  pure ()

def revokeSessionById (sessionId userId : String) : App Bool := do
  let changes ← revokeSessions none (fun s => s.id = sessionId ∧ s.userId = userId) fun db r =>
    r.sessionId = some sessionId ∧ (db.sessions.get? sessionId).any fun s => s.userId = userId
  pure (changes = 1)

/-- Retire the session a reauthentication replaces. If that fails, the new one is retired instead. -/
def replaceReauthenticatedSession (previous : Option SessionRecord) (next : CreatedSession) (nextUserId : String) :
    App Unit := do
  match previous with
  | none => pure ()
  | some previous =>
    tryCatch (do
      let _ ← revokeSessionById previous.id previous.userId
      pure ()) fun error => do
        tryCatch (do
          let _ ← revokeSessionById next.sessionId nextUserId
          pure ()) fun _ => pure ()
        throw error

def revokeOtherUserSessions (userId keepSessionId : String) : App Nat :=
  revokeSessions none (fun s => s.userId = userId ∧ s.id ≠ keepSessionId) fun _ r =>
    r.userId = userId ∧ r.sessionId ≠ some keepSessionId

/-! ## What the statements leave -/

/-- A session after the first statement of a batch. -/
theorem mem_revokeSessionRows {now : Nat} {p : SessionRow → Bool} {db : Database} {s' : SessionRow} :
    s' ∈ (revokeSessionRows now p db).sessions ↔
      ∃ s ∈ db.sessions, s' = if p s && s.revokedAt.isNone then { s with revokedAt := some now } else s :=
  Table.mem_update fun _ => by rfl

theorem revokeSessionRows_spec {now : Nat} {p : SessionRow → Bool} {db : Database} {s' : SessionRow}
    (h : s' ∈ (revokeSessionRows now p db).sessions) :
    ∃ s ∈ db.sessions, s'.id = s.id ∧ s'.userId = s.userId ∧
      (s.revokedAt ≠ none → s'.revokedAt ≠ none) ∧ (p s = true → s'.revokedAt ≠ none) := by
  obtain ⟨s, hs, rfl⟩ := mem_revokeSessionRows.1 h
  refine ⟨s, hs, ?_⟩
  split
  · exact ⟨rfl, rfl, fun _ => Option.some_ne_none _, fun _ => Option.some_ne_none _⟩
  · rename_i hp
    refine ⟨rfl, rfl, id, fun hps hn => hp ?_⟩
    simp [hps, hn]

/-- A family after the batch that ends all access of a user. -/
theorem mem_revokeAll {now : Nat} {userId : String} {db : Database} {r' : RefreshTokenRow}
    (h : r' ∈ (revokeBatch now (·.userId = userId) (fun _ r => r.userId = userId) db).2.refreshTokens) :
    ∃ r ∈ db.refreshTokens, Kept r r' ∧ (r.userId = userId → r'.revokedAt ≠ none) := by
  obtain ⟨r, hr, hk, hrev⟩ := revokeRows_revoked h
  exact ⟨r, hr, hk, fun hu => hrev (decide_eq_true hu)⟩

end Keyforge.Auth
