/-
The signing keyring (`tokens/key-rotation.ts`): what is stored of a key, which keys are published, and
what a rotation makes of a keyring. A rotation goes through two phases: the next key is published
first and signs only later.
-/
import Mathlib.Data.List.Basic

namespace Keyforge.Tokens

/-! ## Constants -/

/-- Keep public-only keys through the longest browser session for logout hints. -/
def RETIRED_GRACE_SECONDS : Nat := 91 * 24 * 60 * 60

/-- Must exceed the public JWKS cache lifetime before a staged key can sign. -/
def JWKS_PROPAGATION_SECONDS : Nat := 2 * 60

def KEYRING_CACHE_TTL_MS : Nat := JWKS_PROPAGATION_SECONDS * 1000 / 4

def ROTATION_LEASE_SECONDS : Nat := 120

def ROTATION_LEASE_NAME : String := "signing-key-write"

def LEGACY_KV_CLEANUP_STATE_KEY : String := "signing_key_legacy_kv_cleanup_pending"

/-! ## Keys -/

/-- A public JWK: its `kid`, and everything else. -/
structure PublicJwk where
  kid : Option String
  parameters : String
  deriving DecidableEq, Repr

/-- Retired keys retain only public material. -/
structure StoredSigningKey where
  kid : String
  privateJwk : Option String
  publicJwk : PublicJwk
  createdAt : Nat
  retiredAt : Option Nat
  deriving DecidableEq, Repr

structure StoredKeyring where
  activeKid : String
  pendingKid : Option String
  pendingSince : Option Nat
  keys : List StoredSigningKey
  deriving DecidableEq, Repr

/-- What `generateKeyPair` draws, exported, with the thumbprint of the public key. -/
structure KeyPair where
  thumbprint : String
  privateJwk : String
  parameters : String
  deriving DecidableEq, Repr

def generateStoredKey (pair : KeyPair) (createdAt : Nat) : StoredSigningKey :=
  { kid := pair.thumbprint, privateJwk := some pair.privateJwk,
    publicJwk := { kid := some pair.thumbprint, parameters := pair.parameters }, createdAt, retiredAt := none }

/-- Retired, and still within the grace period. -/
def withinGrace (now : Nat) (key : StoredSigningKey) : Bool :=
  key.retiredAt.any fun retiredAt => now - retiredAt < RETIRED_GRACE_SECONDS

def publishedKeys (keyring : StoredKeyring) (now : Nat) : List StoredSigningKey :=
  keyring.keys.filter fun key =>
    key.kid = keyring.activeKid || some key.kid = keyring.pendingKid || withinGrace now key

def hasUsableActiveKey (keyring : StoredKeyring) : Bool :=
  keyring.keys.any fun key => key.kid = keyring.activeKid && key.retiredAt.isNone && key.privateJwk.isSome

/-! ## Rotation -/

/-- The key without its private half. -/
def publicOnly (key : StoredSigningKey) : StoredSigningKey :=
  { key with privateJwk := none }

/-- The filter both phases close with. -/
def retain (rotatedAt : Nat) (keys : List StoredSigningKey) : List StoredSigningKey :=
  keys.filter fun key => key.retiredAt.isNone || withinGrace rotatedAt key

/-- First boot: the key is active at once. -/
def initialKeyring (pair : KeyPair) (rotatedAt : Nat) : StoredKeyring :=
  { activeKid := (generateStoredKey pair rotatedAt).kid, pendingKid := none, pendingSince := none,
    keys := [generateStoredKey pair rotatedAt] }

/-- Phase 1: publish the next key while the current one goes on signing. -/
def stageKeyring (current : StoredKeyring) (pair : KeyPair) (rotatedAt : Nat) : StoredKeyring :=
  let pending := generateStoredKey pair rotatedAt
  { activeKid := current.activeKid, pendingKid := some pending.kid, pendingSince := some rotatedAt,
    keys := pending ::
      retain rotatedAt (current.keys.map fun key => if key.retiredAt.isNone then key else publicOnly key) }

/-- What phase 2 makes of one key; the old active key loses its private material and retires. -/
def activateKey (activeKid pendingKid : String) (rotatedAt : Nat) (key : StoredSigningKey) : StoredSigningKey :=
  if key.kid = activeKid then { publicOnly key with retiredAt := some rotatedAt }
  else if key.kid = pendingKid then { key with retiredAt := none }
  else if key.retiredAt.isNone then key else publicOnly key

/-- Phase 2: activate the published key. -/
def activateKeyring (current : StoredKeyring) (pendingKid : String) (rotatedAt : Nat) : StoredKeyring :=
  { activeKid := pendingKid, pendingKid := none, pendingSince := none,
    keys := retain rotatedAt (current.keys.map (activateKey current.activeKid pendingKid rotatedAt)) }

/-- What a rotation comes to: the stored keyring stays, another takes its place, or the pending key
cannot be used. -/
inductive Rotation where
  | unchanged (keyring : StoredKeyring)
  | next (keyring : StoredKeyring)
  | pendingUnavailable
  deriving DecidableEq, Repr

/-- The cases of `rotatePersistedKeyring`. -/
def rotation (current : Option StoredKeyring) (pair : KeyPair) (rotatedAt : Nat) : Rotation :=
  match current with
  | none => .next (initialKeyring pair rotatedAt)
  | some current =>
    match current.pendingKid with
    | none => .next (stageKeyring current pair rotatedAt)
    | some pendingKid =>
      match current.pendingSince with
      | none => .unchanged current
      | some pendingSince =>
        if rotatedAt - pendingSince < JWKS_PROPAGATION_SECONDS then .unchanged current
        else
          match current.keys.find? fun key =>
            key.kid = pendingKid && key.retiredAt.isNone && key.privateJwk.isSome with
          | none => .pendingUnavailable
          | some pending => .next (activateKeyring current pending.kid rotatedAt)

end Keyforge.Tokens
