/-
Passkey login (`auth/passkey.ts`, `db/queries/webauthn.ts`, `consumeChallenge` of
`routes/webauthn.ts`): the ceremony's challenge is consumed, the stored credential is read, the
library checks the assertion, and the counter moves under a guard.
-/
import Keyforge.Auth.Password

namespace Keyforge.Auth

open Lib Db

def isWebAuthnCeremonyId (value : String) : Bool :=
  Security.isOpaqueToken value 16

/-- `ceremonyId` is the cookie's value, if there is one. -/
def consumeChallenge (env : Env) (ceremonyId : Option String) : App (Option WebAuthnChallengePayload) := do
  match ceremonyId.filter isWebAuthnCeremonyId with
  | none => pure none
  | some ceremonyId =>
    let name := hashOpaqueToken env ceremonyId
    let result ← io fun w =>
      let r := (w.challenges name).consume w.nowMs
      (r.1, { w with challenges := Function.update w.challenges name r.2 })
    pure (match result with
      | .found value => some value
      | .notFound => none)

/-- A posted assertion: its `id`, if it is a string, and the JSON it stands in. -/
structure AuthenticationResponse where
  id : Option String
  body : String
  deriving DecidableEq, Repr

/-- The stored credential with a credential id. -/
def storedCredential (credentialId : String) (db : Database) : Option WebauthnCredentialRow :=
  (db.webauthnCredentials.select (·.credentialId = credentialId)).head?

/-- What the history records of the read: the version its user has then. -/
def assertionEvents (sessionId credentialId : String) (db : Database) : List Event :=
  (storedCredential credentialId db).toList.flatMap fun stored => verifyEvents sessionId stored.userId db

/-- The login is to create the session `sessionId`. -/
def getCredentialByCredentialId (sessionId credentialId : String) : App (Option WebauthnCredentialRow) :=
  d1Logged (assertionEvents sessionId credentialId) fun db => (storedCredential credentialId db, db)

/-- The counter moves only from the value the assertion was checked against. -/
def updateCredentialCounter (credentialId : String) (expectedCounter nextCounter : Nat) : App Bool := do
  let now ← clock
  d1 fun db => (db.webauthnCredentials.has fun r => r.credentialId = credentialId && r.counter = expectedCounter,
    { db with
      webauthnCredentials := db.webauthnCredentials.update
        (fun r => r.credentialId = credentialId && r.counter = expectedCounter)
        (fun r => { r with counter := nextCounter, lastUsedAt := some now }) fun _ => rfl })

/-- The user whose passkey signed the challenge. -/
def verifyAuthentication (env : Env) (sessionId : String) (response : AuthenticationResponse)
    (expectedChallenge : String) : App (Option String) := do
  match response.id with
  | none => pure none
  | some credentialId =>
    match ← getCredentialByCredentialId sessionId credentialId with
    | none => pure none
    | some stored =>
      let verified := env.verifyAuthenticationResponse
        { response := response.body, expectedChallenge, credentialId := stored.credentialId,
          publicKey := stored.publicKey, counter := stored.counter }
      match verified with
      | none => pure none
      | some newCounter =>
        let moved ← updateCredentialCounter stored.credentialId stored.counter newCounter
        pure (if moved then some stored.userId else none)

end Keyforge.Auth
