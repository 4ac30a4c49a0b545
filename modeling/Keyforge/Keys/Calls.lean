/-
The calls on the signing keys that interleave: rotations, first uses, and the readiness check of the
removal of the copies in KV.
-/
import Keyforge.Lib.Pool
import Keyforge.Tokens.KeyRotation

namespace Keyforge.Keys

open Lib Tokens

/-- A call carries the lease token and the key pair it draws. -/
inductive KeyCall where
  | rotate (ownerToken : String) (pair : KeyPair) (rotatedAt : Nat)
  | load (ownerToken : String) (pair : KeyPair)
  | assertCleanup
  deriving DecidableEq, Repr

inductive KeyAnswer where
  | kid (activeKid : String)
  | keyring (keyring : StoredKeyring)
  | cleaned
  deriving DecidableEq, Repr

namespace KeyCall

def code : KeyCall → App KeyAnswer
  | rotate ownerToken pair rotatedAt => .kid <$> rotateSigningKey ownerToken pair rotatedAt
  | load ownerToken pair => .keyring <$> loadOrInitializeKeyring ownerToken pair
  | assertCleanup => do assertLegacySigningKeyCleanupComplete; pure .cleaned

/-- The thumbprint of the key a call draws. -/
def thumbprint : KeyCall → Option String
  | rotate _ pair _ => some pair.thumbprint
  | load _ pair => some pair.thumbprint
  | assertCleanup => none

/-- The token with which a call asks for the lease. -/
def ownerToken : KeyCall → Option String
  | rotate ownerToken _ _ => some ownerToken
  | load ownerToken _ => some ownerToken
  | assertCleanup => none

end KeyCall

/-- Calls arrive as `arrive` says, and the steps that can happen are as `allow` says. -/
def keySystem (allow : World → Input → World → Prop)
    (arrive : Pool KeyCall Input World (Except Failure KeyAnswer) → KeyCall → Prop) :
    System KeyCall Input World (Except Failure KeyAnswer) where
  code := fun c => c.code.run
  allow := allow
  arrive := arrive

end Keyforge.Keys
