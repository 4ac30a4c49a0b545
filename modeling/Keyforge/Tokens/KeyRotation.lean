/-
The programs of the signing keys (`tokens/key-rotation.ts`): the keyring is one versioned row of D1,
written by compare and swap; a lease in D1 admits one writer; the copies that earlier releases kept in
KV are moved to D1 once and removed. What an isolate remembers of the keyring is in `Tokens.Isolate`.
-/
import Keyforge.Logic

namespace Keyforge.Tokens

open Lib Db

/-! ## Control flow -/

/-- `setTimeout`. -/
def sleep (ms : Nat) : App Unit :=
  ExceptT.mk <| .atomic fun e w => (.ok (), w.tick (ms + e.dt))

/-- `if (c) await p`. -/
def whenever (c : Bool) (p : App Unit) : App Unit :=
  if c then p else pure ()

/-- `try { return await p } finally { await q }`. -/
def withFinally {α : Type} (p : App α) (q : App Unit) : App α := do
  let r ← settled p
  q
  match r with
  | .ok a => pure a
  | .error x => throw x

/-- `try { return p } finally { await q }`: `p` has only been started when `q` runs. -/
def startedFinally {α : Type} (p : App α) (q : App Unit) : App α := do
  let (r, ()) ← all 0 (settled p) q
  match r with
  | .ok a => pure a
  | .error x => throw x

/-! ## Copies in KV -/

def kvGetSigningKeys : App (Option (Except String (List StoredSigningKey))) :=
  query fun w => w.kv.signingKeys

def kvGetActiveKid : App (Option String) :=
  query fun w => w.kv.activeKid

def kvDeleteSigningKeys : App Unit :=
  io fun w => ((), { w with kv := { w.kv with signingKeys := none } })

def kvDeleteActiveKid : App Unit :=
  io fun w => ((), { w with kv := { w.kv with activeKid := none } })

def loadLegacyKeyring : App (Option StoredKeyring) := do
  let (rawKeys, activeKid) ← all 1 kvGetSigningKeys kvGetActiveKid
  match rawKeys, activeKid with
  | some (.ok keys), some activeKid =>
    let candidate : StoredKeyring := { activeKid, pendingKid := none, pendingSince := none, keys }
    pure (if hasUsableActiveKey candidate then some candidate else none)
  | some (.error text), some _ => throw (.error text)
  | _, _ => pure none

/-- The statement on the marker, in the tables of the background jobs. -/
def setOperations (operations : OperationsTables) (db : Database) : Database :=
  { db with operations }

/-- `INSERT … ON CONFLICT(key) DO UPDATE`. -/
def upsertState (row : MaintenanceStateRow) (t : Table MaintenanceStateRow.key) : Table MaintenanceStateRow.key :=
  if (t.get? row.key).isSome then
    t.update (fun r => r.key = row.key) (fun r => { r with value := row.value, updatedAt := row.updatedAt }) fun _ => rfl
  else t.insert row

def markLegacyKvCleanupPending : App Unit := do
  let now ← clock
  d1 fun db => ((), setOperations { db.operations with
    maintenanceState := upsertState { key := LEGACY_KV_CLEANUP_STATE_KEY, value := "pending", updatedAt := now }
      db.operations.maintenanceState } db)

def clearLegacyKvCleanupPending : App Unit :=
  d1 fun db => ((), setOperations { db.operations with
    maintenanceState := db.operations.maintenanceState.delete fun r => r.key = LEGACY_KV_CLEANUP_STATE_KEY } db)

/-- Whether the two copies are there. -/
def readLegacyKvCopies : App (Bool × Bool) := do
  let (rawKeys, activeKid) ← all 1 kvGetSigningKeys kvGetActiveKid
  pure (rawKeys.isSome, activeKid.isSome)

/-- Remove and verify both copies, then clear the marker. -/
def removeLegacyKvKeyring : App Unit := do
  let _ ← all 1 kvDeleteSigningKeys kvDeleteActiveKid
  let remaining ← readLegacyKvCopies
  require (!remaining.1 && !remaining.2) (.error "legacy signing-key KV copies remain after deletion")
  clearLegacyKvCleanupPending

def retryLegacyKvCleanup : App Unit :=
  tryCatch removeLegacyKvKeyring fun _ => pure ()

def cleanupPending (db : Database) : Bool :=
  (db.operations.maintenanceState.get? LEGACY_KV_CLEANUP_STATE_KEY).isSome

def assertLegacySigningKeyCleanupComplete : App Unit := do
  let (hasD1Keyring, pending) ← select fun db => (db.operations.signingKeyState.isSome, cleanupPending db)
  let copies ← readLegacyKvCopies
  if !copies.1 && !copies.2 && !pending then pure ()
  else
    require hasD1Keyring (.error "legacy signing-key KV cleanup cannot run before D1 key initialization")
    markLegacyKvCleanupPending
    removeLegacyKvKeyring

/-! ## The row in D1 -/

structure PersistedKeyring where
  keyring : StoredKeyring
  version : Nat
  deriving DecidableEq, Repr

/-- What follows the read of the row. -/
def finishLoad (row : Option SigningKeyStateRow) (pending : Bool) : App (Option PersistedKeyring) := do
  match row with
  | none => pure none
  | some row =>
    require (hasUsableActiveKey row.keyring) (.app 500 "Signing key unavailable")
    whenever pending retryLegacyKvCleanup
    pure (some ⟨row.keyring, row.version⟩)

/-- `missing` is what the history records if there is no row. -/
def loadPersistedKeyringLogged (missing : List Event) : App (Option PersistedKeyring) := do
  let (row, pending) ← d1Logged (fun db => if db.operations.signingKeyState.isNone then missing else [])
    fun db => ((db.operations.signingKeyState, cleanupPending db), db)
  finishLoad row pending

def loadPersistedKeyring : App (Option PersistedKeyring) :=
  loadPersistedKeyringLogged []

/-- The row the statement writes, if it takes effect: an insert when no version is expected, else an
update of that version. -/
def writtenRow (keyring : StoredKeyring) (expectedVersion : Option Nat) (updatedAt : Nat)
    (stored : Option SigningKeyStateRow) : Option SigningKeyStateRow :=
  match expectedVersion, stored with
  | none, none => some { keyring, version := 1, updatedAt }
  | some version, some row => if row.version = version then some { keyring, version := version + 1, updatedAt } else none
  | _, _ => none

/-- Who writes the keyring, and from what: the history of a write. -/
structure WriteOrigin where
  owner : String
  rotatedAt : Option Nat
  legacy : Bool
  deriving DecidableEq, Repr

def writeEvents (origin : WriteOrigin) (keyring : StoredKeyring) (expectedVersion : Option Nat) (updatedAt : Nat)
    (db : Database) : List Event :=
  match writtenRow keyring expectedVersion updatedAt db.operations.signingKeyState with
  | some row => [.keyringWritten origin.owner, .keyringCommitted row.version origin.rotatedAt origin.legacy keyring]
  | none => [.keyringWritten origin.owner]

/-- The statement, and whether it changed the row. -/
def writeKeyring (keyring : StoredKeyring) (expectedVersion : Option Nat) (updatedAt : Nat) (db : Database) :
    Bool × Database :=
  match writtenRow keyring expectedVersion updatedAt db.operations.signingKeyState with
  | some row => (true, setOperations { db.operations with signingKeyState := some row } db)
  | none => (false, db)

def persistKeyring (origin : WriteOrigin) (keyring : StoredKeyring) (expectedVersion : Option Nat) (updatedAt : Nat) :
    App Unit := do
  let changed ← d1Logged (writeEvents origin keyring expectedVersion updatedAt)
    (writeKeyring keyring expectedVersion updatedAt)
  require changed (.app 503 "Signing key state changed concurrently")

/-! ## Rotation -/

/-- The copy in KV counts only while there is no row. -/
def legacyUnless (persisted : Option PersistedKeyring) : App (Option StoredKeyring) :=
  match persisted with
  | none => loadLegacyKeyring
  | some _ => pure none

/-- The rest of `rotatePersistedKeyring`, from what was loaded. -/
def rotateLoaded (owner : String) (pair : KeyPair) (rotatedAt : Nat) (persisted : Option PersistedKeyring)
    (legacy : Option StoredKeyring) : App StoredKeyring := do
  match rotation ((persisted.map (·.keyring)).or legacy) pair rotatedAt with
  | .unchanged current => pure current
  | .pendingUnavailable => throw (.app 500 "Pending signing key unavailable")
  | .next keyring =>
    whenever legacy.isSome markLegacyKvCleanupPending
    let now ← clock
    persistKeyring ⟨owner, some rotatedAt, legacy.isSome⟩ keyring (persisted.map (·.version)) now
    whenever legacy.isSome retryLegacyKvCleanup
    pure keyring

def rotatePersistedKeyring (owner : String) (pair : KeyPair) (rotatedAt : Nat) : App StoredKeyring := do
  let persisted ← loadPersistedKeyring
  let legacy ← legacyUnless persisted
  rotateLoaded owner pair rotatedAt persisted legacy

/-! ## The lease -/

/-- The rows after `INSERT … ON CONFLICT(job_name) DO UPDATE … WHERE lease_until <= now`, if it takes
effect. -/
def leaseTaken (ownerToken : String) (now : Nat) (t : Table MaintenanceLeaseRow.jobName) :
    Option (Table MaintenanceLeaseRow.jobName) :=
  let lease : MaintenanceLeaseRow :=
    { jobName := ROTATION_LEASE_NAME, ownerToken, leaseUntil := now + ROTATION_LEASE_SECONDS, updatedAt := now }
  match t.get? ROTATION_LEASE_NAME with
  | none => some (t.insert lease)
  | some held =>
    if held.leaseUntil ≤ now then
      some (t.update (fun r => r.jobName = ROTATION_LEASE_NAME)
        (fun r => { r with ownerToken, leaseUntil := lease.leaseUntil, updatedAt := now }) fun _ => rfl)
    else none

def acquireRotationLease (ownerToken : String) (now : Nat) : App Bool :=
  d1 fun db => match leaseTaken ownerToken now db.operations.maintenanceLeases with
    | some maintenanceLeases => (true, setOperations { db.operations with maintenanceLeases } db)
    | none => (false, db)

def releaseRotationLease (ownerToken : String) : App Unit :=
  d1 fun db => ((), setOperations { db.operations with
    maintenanceLeases := db.operations.maintenanceLeases.delete fun r =>
      r.jobName = ROTATION_LEASE_NAME ∧ r.ownerToken = ownerToken } db)

/-- Rotate under the lease. -/
def rotateSigningKey (ownerToken : String) (pair : KeyPair) (rotatedAt : Nat) : App String := do
  let now ← clock
  let acquired ← acquireRotationLease ownerToken now
  require acquired (.app 503 "Signing key rotation is already in progress")
  let keyring ← withFinally (rotatePersistedKeyring ownerToken pair rotatedAt) (releaseRotationLease ownerToken)
  pure keyring.activeKid

/-! ## First use -/

/-- The keyring of a load, if it is usable. -/
def usableKeyring (loaded : Option PersistedKeyring) : Option StoredKeyring :=
  (loaded.map (·.keyring)).filter hasUsableActiveKey

/-- The polls of a caller that did not get the lease. -/
def awaitKeyring : Nat → App StoredKeyring
  | 0 => throw (.app 503 "Signing key initialization is still in progress")
  | attempts + 1 => do
    sleep 50
    let initialized ← loadPersistedKeyring
    match usableKeyring initialized with
    | some keyring => pure keyring
    | none => awaitKeyring attempts

/-- The end of the `try` block of a caller that found neither a row nor a copy in KV: it returns the
rotation's promise, so the `finally` block runs while the rotation does. -/
def rotateStarted (ownerToken : String) (pair : KeyPair) : App StoredKeyring := do
  let now ← clock
  startedFinally (rotatePersistedKeyring ownerToken pair now) (releaseRotationLease ownerToken)

/-- The rest of the `try` block, for a caller that found no row: the copy in KV is moved to D1. -/
def migrateLegacyKeyring (ownerToken : String) (legacy : StoredKeyring) : App StoredKeyring := do
  markLegacyKvCleanupPending
  let now ← clock
  persistKeyring ⟨ownerToken, none, true⟩ legacy none now
  retryLegacyKvCleanup
  pure legacy

/-- What the loads under the lease found. -/
inductive UnderLease where
  | stored (keyring : StoredKeyring)
  | legacy (keyring : StoredKeyring)
  | nothing
  deriving DecidableEq, Repr

/-- The loads under the lease. -/
def loadUnderLease (ownerToken : String) : App UnderLease := do
  let afterLease ← loadPersistedKeyringLogged [.keyringMissing ownerToken]
  match afterLease, usableKeyring afterLease with
  | _, some keyring => pure (.stored keyring)
  | some _, none => pure .nothing
  | none, none =>
    let legacy ← loadLegacyKeyring
    pure (legacy.elim .nothing .legacy)

/-- The `try` block with its `finally`. -/
def initializeKeyring (ownerToken : String) (pair : KeyPair) : App StoredKeyring := do
  match ← settled (loadUnderLease ownerToken) with
  | .ok (.stored keyring) => withFinally (pure keyring) (releaseRotationLease ownerToken)
  | .ok (.legacy legacy) => withFinally (migrateLegacyKeyring ownerToken legacy) (releaseRotationLease ownerToken)
  | .ok .nothing => rotateStarted ownerToken pair
  | .error x => withFinally (throw x) (releaseRotationLease ownerToken)

def loadOrInitializeKeyring (ownerToken : String) (pair : KeyPair) : App StoredKeyring := do
  let current ← loadPersistedKeyring
  match usableKeyring current with
  | some keyring => pure keyring
  | none =>
    let now ← clock
    let acquired ← acquireRotationLease ownerToken now
    if acquired then initializeKeyring ownerToken pair else awaitKeyring 40

end Keyforge.Tokens
