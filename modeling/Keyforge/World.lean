/-
The server's shared state and the programs over it. `World` holds the clock, the D1 database, the
Durable Objects and the KV entries; `App` is a program over it that may throw. Every D1 statement or batch and every
Durable Object call is one atomic step: the clock moves first, then the call runs, or it fails with
or without having taken effect. `log` is a history variable: steps append what they committed and
nothing reads it.
-/
import Keyforge.Lib.Prog
import Keyforge.Db.Schema
import Keyforge.Do.Family
import Keyforge.Do.OneTime

namespace Keyforge

open Lib Db Do

/-! ## Failures -/

inductive OAuthErrorCode where
  | invalidRequest
  | invalidGrant
  | unauthorizedClient
  | invalidScope
  | invalidTarget
  | accessDenied
  | temporarilyUnavailable
  | authorizationPending
  | slowDown
  | expiredToken
  | unsupportedResponseType
  | loginRequired
  | consentRequired
  deriving DecidableEq, Repr

/-- What a request can throw: an OAuth error with its public description and internal detail, an
application error, a plain error, a client metadata document or a client assertion that was not accepted, or
a failed storage call. -/
inductive Failure where
  | oauth (code : OAuthErrorCode) (description detail : String)
  | app (status : Nat) (publicMessage : String)
  | error (message : String)
  | clientIdMetadata (message : String)
  | privateKeyJwt (message : String)
  | storage
  deriving DecidableEq, Repr

/-! ## Emailed capabilities -/

inductive OneTimeTokenPurpose where
  | magicLink
  | emailVerification
  | emailChange
  | passwordReset
  | accountInvitation
  deriving DecidableEq, Repr

structure AccountOneTimeTokenPayload where
  purpose : OneTimeTokenPurpose
  userId : String
  email : String
  redirectTo : Option String
  securityVersion : Nat
  reauthenticate : Bool
  deriving DecidableEq, Repr

/-! ## Passkey ceremonies -/

inductive WebAuthnChallengeKind where
  | registration
  | authentication
  deriving DecidableEq, Repr

structure WebAuthnChallengePayload where
  kind : WebAuthnChallengeKind
  challenge : String
  userId : Option String
  deriving DecidableEq, Repr

/-! ## Workers KV -/

/-- The two historical entries of the signing keys; a text that holds no keys is kept as it is. -/
structure KvStore where
  signingKeys : Option (Except String (List Tokens.StoredSigningKey))
  activeKid : Option String
  deriving Repr

def KvStore.empty : KvStore := ⟨none, none⟩

/-! ## The world -/

/-- What the history records. -/
inductive Event where
  /-- A session was created for a user. -/
  | sessionCreated (sessionId userId : String)
  /-- A revocation batch that covers these sessions committed. -/
  | sessionsRevoked (sessionIds : List String)
  /-- A row of `refresh_tokens` was inserted. -/
  | familyInserted (familyId : String)
  /-- The guarded insert of a family was refused. -/
  | familyRefused (familyId : String)
  /-- A statement revoked these families in D1. -/
  | familiesRevoked (familyIds : List String)
  /-- A family object rotated to a new hash. -/
  | rotated (familyId tokenHash : String)
  /-- A rotation's mirror write matched its row. -/
  | mirrored (familyId tokenHash : String)
  /-- A rotation's mirror write matched no row, or its request saw it fail. -/
  | mirrorLost (familyId tokenHash : String)
  /-- The revocation of the object after a lost mirror write failed. -/
  | compensationFailed (familyId tokenHash : String)
  /-- A batch that revokes all of a user's sessions and families committed. -/
  | userRevoked (userId : String)
  /-- The consents of a user for a client were deleted. -/
  | consentDeleted (userId clientId : String)
  /-- A consent of a user for a client and a resource was saved. -/
  | consentSaved (userId clientId resource : String)
  /-- A resource was deleted with what refers to it. -/
  | resourceDeleted (resource : String)
  /-- A client's metadata fingerprint changed. -/
  | fingerprintChanged (clientId : String)
  /-- A login that is to create this session began to verify a user's credential, at this version of
  the user. -/
  | verifying (sessionId userId : String) (securityVersion : Nat)
  /-- An emailed capability was minted for a user, at this version of the user. -/
  | minted (tokenHash userId : String) (securityVersion : Nat)
  /-- A password reset, invitation or email change minted at this version took effect. -/
  | redeemed (tokenHash userId : String) (securityVersion : Nat)
  /-- The groups of an account just created were set, with no guard. -/
  | groupsSet (userId : String) (groupIds : List String)
  /-- An account just created was deleted again, with no guard, since a later step failed. -/
  | rolledBack (userId : String)
  /-- The insert of an account failed, or its deletion after a failed step. -/
  | accountStranded (userId : String)
  /-- A version of the signing keyring was committed, by a rotation or as it was found in KV; `legacy`
  says that it was made from the copy in KV. -/
  | keyringCommitted (version : Nat) (rotatedAt : Option Nat) (legacy : Bool) (keyring : Tokens.StoredKeyring)
  /-- A caller that holds the lease loaded no keyring. -/
  | keyringMissing (owner : String)
  /-- A caller's write of the keyring ran, whether or not it took effect. -/
  | keyringWritten (owner : String)
  /-- A client's assertion passed the checks of a verification. -/
  | assertionChecked (clientId assertion : String)
  /-- A verification recorded a client's assertion as used. -/
  | assertionAccepted (clientId assertion : String)
  /-- A verification's write found a client's assertion used, or failed. -/
  | assertionRefused (clientId assertion : String)
  deriving DecidableEq, Repr

structure World where
  nowMs : Nat
  db : Database
  families : String → RefreshFamilyStorage
  codes : String → OneTimeStorage AuthorizationCodePayload
  oneTimeTokens : String → OneTimeStorage AccountOneTimeTokenPayload
  challenges : String → OneTimeStorage WebAuthnChallengePayload
  kv : KvStore
  log : List Event

namespace World

def tick (dt : Nat) (w : World) : World := { w with nowMs := w.nowMs + dt }

/-- `nowSeconds()`. -/
def nowSeconds (w : World) : Nat := w.nowMs / 1000

end World

/-- What one step gets from outside: how far the clock moved, whether the storage call failed and
whether it had taken effect by then, and which side of a `Promise.all` moves. -/
structure Input where
  dt : Nat
  fail : Bool
  applied : Bool
  pick : Nat → Bool

/-- Programs of the server. -/
abbrev App (α : Type) := ExceptT Failure (Prog Input World) α

/-- One storage call. -/
def io {α : Type} (op : World → α × World) : App α :=
  ExceptT.mk <| .atomic fun e w =>
    let w := w.tick e.dt
    if e.fail then (.error .storage, if e.applied then (op w).2 else w)
    else (.ok (op w).1, (op w).2)

/-- One storage call whose failure the history records. -/
def ioLogged {α : Type} (failed : List Event) (op : World → α × World) : App α :=
  ExceptT.mk <| .atomic fun e w =>
    let w := w.tick e.dt
    if e.fail then
      let w' := if e.applied then (op w).2 else w
      (.error .storage, { w' with log := failed ++ w'.log })
    else (.ok (op w).1, (op w).2)

/-- A storage call that only reads. -/
def query {α : Type} (q : World → α) : App α :=
  io fun w => (q w, w)

/-- One D1 statement or batch; `committed` is what the history records of it, from the database
before. -/
def d1Logged {α : Type} (committed : Database → List Event) (stmt : Database → α × Database) : App α :=
  io fun w => ((stmt w.db).1, { w with db := (stmt w.db).2, log := committed w.db ++ w.log })

/-- One D1 statement or batch. -/
def d1 {α : Type} (stmt : Database → α × Database) : App α :=
  d1Logged (fun _ => []) stmt

/-- A read of D1. -/
def select {α : Type} (q : Database → α) : App α :=
  query fun w => q w.db

/-- The clock, in seconds. -/
def clock : App Nat :=
  ExceptT.mk <| .atomic fun e w => (.ok (w.tick e.dt).nowSeconds, w.tick e.dt)

/-- The clock, where the history records what the time decides. -/
def clockLogged (decided : Nat → List Event) : App Nat :=
  ExceptT.mk <| .atomic fun e w =>
    (.ok (w.tick e.dt).nowSeconds, { w.tick e.dt with log := decided (w.tick e.dt).nowSeconds ++ w.log })

/-- One call on the family object `familyId`. -/
def familyObject {α : Type} (familyId : String)
    (call : Nat → RefreshFamilyStorage → α × RefreshFamilyStorage) : App α :=
  io fun w =>
    let r := call w.nowSeconds (w.families familyId)
    (r.1, { w with families := Function.update w.families familyId r.2 })

/-- `if (!holds) throw`. -/
def require (holds : Bool) (failure : Failure) : App Unit :=
  if holds then pure () else throw failure

/-- `Promise.all` of two programs; `depth` tells nested uses apart. -/
def all {α β : Type} (depth : Nat) (p : App α) (q : App β) : App (α × β) :=
  ExceptT.mk <| (Prog.par (fun e => e.pick depth) p.run q.run).bind fun r =>
    match r with
    | (.ok a, .ok b) => .done (.ok (a, b))
    | (.error x, _) => .done (.error x)
    | (_, .error x) => .done (.error x)

/-- A program whose result is not looked at. -/
def ignore {α : Type} (p : App α) : App Unit := do
  let _ ← p
  pure ()

/-- A program whose failure is caught and returned (`.then(ok, error)`, `Promise.allSettled`). -/
def settled {α : Type} (p : App α) : App (Except Failure α) :=
  ExceptT.mk <| p.run.bind fun r => .done (.ok r)

end Keyforge
