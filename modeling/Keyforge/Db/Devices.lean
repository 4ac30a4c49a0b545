/-
A user's and an administrator's decisions on a device session (`db/queries/devices.ts`,
`db/queries/admin-devices.ts`). Each is one statement or batch with its own guard on the status.
-/
import Keyforge.Db.Queries

namespace Keyforge.Db

open Lib OAuth

/-! ## Approval -/

structure ApproveDeviceInput where
  id : String
  userId : String
  sessionId : String
  authTime : Nat
  clientId : String
  scope : String
  resource : String
  deriving DecidableEq, Repr

/-- `EXISTS (SELECT 1 … WHERE id = ? AND status = 'pending')`. -/
def devicePending (id : String) (db : Database) : Bool :=
  (db.devices.get? id).any (·.status = .pending)

/-- The consents statement of an approval that finds its session pending. The column
`metadata_fingerprint` is left alone: a new row has none. -/
def approvedConsents (now : Nat) (consentId : String) (input : ApproveDeviceInput) (db : Database) :
    Option (Table fun r : ConsentRow => (r.userId, r.clientId, r.resource)) :=
  upsertConsent
    { id := consentId, userId := input.userId, clientId := input.clientId, scope := input.scope,
      resource := input.resource, metadataFingerprint := none, updatedAt := now }
    (fun stored => (mergeScopes stored.scope input.scope).map fun scope => (scope, stored.metadataFingerprint))
    db.consents

/-- Set the status of a session that is pending, with who approved it. -/
def approvedDevice (input : ApproveDeviceInput) (d : DeviceRow) : DeviceRow :=
  { d with
    status := .approved, userId := some input.userId, sessionId := some input.sessionId, authTime := some input.authTime }

theorem approvedDevice_id (input : ApproveDeviceInput) (d : DeviceRow) : (approvedDevice input d).id = d.id := rfl

/-- The batch: the consent, where the session is pending, and the session; the second statement's count
is the result. Scopes that do not merge abort it. -/
def approveDeviceBatch (now : Nat) (consentId : String) (input : ApproveDeviceInput) (db : Database) :
    Option (Bool × Database) :=
  let consents := if devicePending input.id db then approvedConsents now consentId input db else some db.consents
  consents.map fun consents => (devicePending input.id db, { db with
    consents
    devices := db.devices.update (fun d => d.id = input.id ∧ d.status = .pending) (approvedDevice input)
      (approvedDevice_id input) })

/-- Approve and persist the represented consent in one D1 transaction. -/
def approveDeviceWithConsent (consentId : String) (input : ApproveDeviceInput) : App Bool := do
  let now ← clock
  let approved ← d1Logged
    (fun db => match approveDeviceBatch now consentId input db with
      | some (true, _) => [.consentSaved input.userId input.clientId input.resource]
      | _ => [])
    fun db => match approveDeviceBatch now consentId input db with
      | some (approved, db) => (some approved, db)
      | none => (none, db)
  match approved with
  | some approved => pure approved
  | none => throw .storage

/-! ## Denial and revocation -/

theorem denied_id (d : DeviceRow) : ({ d with status := .denied } : DeviceRow).id = d.id :=
  rfl

/-- `UPDATE … SET status = 'denied' WHERE id = ? AND …`, for the statuses `p`. -/
def endDevice (p : DeviceStatus → Bool) (id : String) : App Bool :=
  d1 fun db => ((db.devices.get? id).any (p ·.status), { db with
    devices := db.devices.update (fun d => d.id = id && p d.status) (fun d => { d with status := .denied }) denied_id })

def denyDevice (id : String) : App Bool :=
  endDevice (fun status => status = .pending) id

def revokeDeviceSession (id : String) : App Bool :=
  endDevice (fun status => status = .pending || status = .approved) id

end Keyforge.Db
