/-
The compile-time constants of `config.ts` that the modelled functions read. Lifetimes are in
seconds.
-/
import Mathlib.Data.List.Basic

namespace Keyforge

/-! ## Token and session lifetimes -/

namespace TOKEN_TTL

def userAccessToken : Nat := 900
def serviceAccessToken : Nat := 600
def authorizationCode : Nat := 60
def refreshToken : Nat := 30 * 24 * 60 * 60
def refreshTokenRememberMe : Nat := 90 * 24 * 60 * 60
def magicLink : Nat := 15 * 60
def emailVerification : Nat := 24 * 60 * 60
def passwordReset : Nat := 60 * 60

end TOKEN_TTL

namespace SESSION_TTL

def default : Nat := 30 * 24 * 60 * 60

end SESSION_TTL

/-! ## Refresh families -/

namespace REFRESH_TOKEN_POLICY

/-- The first rotation is immediate; later rotations must be this far apart. -/
def minimumRotationIntervalSeconds : Nat := 10
/-- Successful rotations in one family before reauthorization is required. -/
def maximumGeneration : Nat := 10000
/-- Live authorizations retained for one user/client pair. -/
def maximumActiveFamiliesPerUserClient : Nat := 20

end REFRESH_TOKEN_POLICY

/-! ## Scopes -/

/-- Scopes of a user context, forbidden for client_credentials. -/
def USER_ONLY_SCOPES : List String := ["openid", "profile", "email", "offline_access"]

end Keyforge
