/-
The refresh-token family object (`do/RefreshTokenFamilyDO.ts`): its storage, `init`, `rotate`,
`revoke` and the alarm. Each call runs in one storage transaction behind the object's input gate,
so a call is one atomic function of the clock and the storage.
-/
import Keyforge.Config
import Keyforge.Lib.Machine
import Mathlib.Data.Finset.Card

namespace Keyforge.Do

/-! ## Data -/

structure RefreshFamilyInit where
  userId : String
  clientId : String
  resource : String
  scope : String
  authTime : Nat
  currentTokenHash : String
  absoluteExpiresAt : Nat
  deriving DecidableEq, Repr

/-- The `meta` record. `authTime` and `lastRotatedAt` are missing in families written before the
fields were introduced; `rotate` falls back to `createdAt` for both. -/
structure RefreshFamilyMeta where
  userId : String
  clientId : String
  resource : String
  scope : String
  authTime : Option Nat
  absoluteExpiresAt : Nat
  createdAt : Nat
  generation : Nat
  revoked : Bool
  lastRotatedAt : Option Nat
  deriving DecidableEq, Repr

inductive RotateResult where
  | rotated (familyMeta : RefreshFamilyMeta)
  | reuseDetected (familyMeta : RefreshFamilyMeta)
  | tooSoon (retryAfterSeconds : Nat)
  | generationLimit (familyMeta : RefreshFamilyMeta)
  | revoked
  | expired
  | invalid
  deriving DecidableEq, Repr

/-- The object's storage: the keys `meta` and `currentHash`, the legacy array `usedHashes`, the
hashes `h` whose key `used:h` holds `true`, and the alarm (milliseconds). -/
structure RefreshFamilyStorage where
  familyMeta : Option RefreshFamilyMeta
  currentHash : Option String
  usedHashes : Option (List String)
  used : Finset String
  alarm : Option Nat
  deriving DecidableEq

namespace RefreshFamilyStorage

def empty : RefreshFamilyStorage := ⟨none, none, none, ∅, none⟩

/-- `put("meta", { ...meta, revoked: true })`. -/
def burn (s : RefreshFamilyStorage) (m : RefreshFamilyMeta) : RefreshFamilyStorage :=
  { s with familyMeta := some { m with revoked := true } }

/-- The family exists and is revoked. -/
def isRevoked (s : RefreshFamilyStorage) : Bool :=
  s.familyMeta.any (·.revoked)

end RefreshFamilyStorage

/-! ## Methods -/

/-- The `meta` record `init` writes. -/
def initialMeta (now : Nat) (data : RefreshFamilyInit) : RefreshFamilyMeta :=
  { userId := data.userId, clientId := data.clientId, resource := data.resource, scope := data.scope,
    authTime := some data.authTime, absoluteExpiresAt := data.absoluteExpiresAt, createdAt := now,
    generation := 0, revoked := false, lastRotatedAt := some now }

/-- `RefreshTokenFamilyDO.init` at clock `now` (seconds). An existing family is kept; the alarm is
set in either case. -/
def init (now : Nat) (data : RefreshFamilyInit) (s : RefreshFamilyStorage) : RefreshFamilyStorage :=
  let s' := match s.familyMeta with
    | some _ => s
    | none => { s with
        familyMeta := some (initialMeta now data), currentHash := some data.currentTokenHash }
  { s' with alarm := some (data.absoluteExpiresAt * 1000 + 60000) }

/-- The `meta` record `rotate` writes on success. -/
def nextMeta (now : Nat) (nextScope : String) (m : RefreshFamilyMeta) : RefreshFamilyMeta :=
  { m with
    authTime := some (m.authTime.getD m.createdAt), scope := nextScope, generation := m.generation + 1,
    lastRotatedAt := some now }

/-- `RefreshTokenFamilyDO.rotate` at clock `now` (seconds). -/
def rotate (now : Nat) (presentedHash newTokenHash expectedClientId nextScope : String)
    (s : RefreshFamilyStorage) : RotateResult × RefreshFamilyStorage :=
  match s.familyMeta, s.currentHash with
  | some m, some currentHash =>
    if m.clientId ≠ expectedClientId then (.invalid, s)
    else if m.revoked then (.revoked, s)
    else if now > m.absoluteExpiresAt then (.expired, s)
    else if presentedHash = currentHash then
      if m.generation ≥ REFRESH_TOKEN_POLICY.maximumGeneration then
        (.generationLimit { m with revoked := true }, s.burn m)
      else
        let lastRotatedAt := m.lastRotatedAt.getD m.createdAt
        -- `Math.max(0, now - lastRotatedAt)` is truncated subtraction
        let elapsed := now - lastRotatedAt
        if m.generation > 0 ∧ elapsed < REFRESH_TOKEN_POLICY.minimumRotationIntervalSeconds then
          (.tooSoon (REFRESH_TOKEN_POLICY.minimumRotationIntervalSeconds - elapsed), s)
        else
          (.rotated (nextMeta now nextScope m), { s with
            familyMeta := some (nextMeta now nextScope m), currentHash := some newTokenHash,
            used := insert currentHash s.used })
    else if (s.usedHashes.any (·.contains presentedHash)) ∨ presentedHash ∈ s.used then
      (.reuseDetected { m with revoked := true }, s.burn m)
    else (.invalid, s)
  | _, _ => (.invalid, s)

/-- `RefreshTokenFamilyDO.revoke`. -/
def revoke (s : RefreshFamilyStorage) : RefreshFamilyStorage :=
  match s.familyMeta with
  | some m => s.burn m
  | none => s

/-- `RefreshTokenFamilyDO.getState`. -/
def getState (s : RefreshFamilyStorage) : Option RefreshFamilyMeta :=
  s.familyMeta

/-- `RefreshTokenFamilyDO.alarm`: `deleteAll()`. -/
def alarm (_ : RefreshFamilyStorage) : RefreshFamilyStorage :=
  .empty

/-! ## The object -/

inductive FamilyCall where
  | init (data : RefreshFamilyInit)
  | rotate (presentedHash newTokenHash expectedClientId nextScope : String)
  | revoke
  | alarm
  deriving DecidableEq, Repr

/-- Whether a call is `init`. -/
def FamilyCall.isInit : FamilyCall → Bool
  | .init _ => true
  | _ => false

/-- The hashes a call carries. -/
def FamilyCall.hashes : FamilyCall → List String
  | .init data => [data.currentTokenHash]
  | .rotate presentedHash newTokenHash _ _ => [presentedHash, newTokenHash]
  | .revoke => []
  | .alarm => []

/-- One family object from empty storage. A call carries the clock it reads, in seconds; only
`rotate` answers. -/
def familyMachine : Lib.Machine RefreshFamilyStorage (Nat × FamilyCall) (Option RotateResult) where
  start := .empty
  call := fun (now, c) s => match c with
    | .init data => (none, init now data s)
    | .rotate presentedHash newTokenHash expectedClientId nextScope =>
      let r := rotate now presentedHash newTokenHash expectedClientId nextScope s
      (some r.1, r.2)
    | .revoke => (none, revoke s)
    | .alarm => (none, alarm s)

end Keyforge.Do
