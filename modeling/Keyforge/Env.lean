/-
The deployment's bindings that the modelled functions read from `env`, and the platform functions
they call.
-/
import Keyforge.Security.Crypto

namespace Keyforge

/-- What the WebAuthn library is given to check an assertion: the posted response, the challenge of
the ceremony, and the stored credential. -/
structure AssertionInput where
  response : String
  expectedChallenge : String
  credentialId : String
  publicKey : String
  counter : Nat
  deriving DecidableEq, Repr

/-- A parsed URL, in its components. -/
structure Url where
  protocol : String
  username : String
  password : String
  hostname : String
  port : String
  pathname : String
  search : String
  hash : String
  deriving DecidableEq, Repr

/-- `env`: the issuer, the environment's name, whether YOLO mode is on, the retention setting, and
the functions that rest on the platform and on libraries (SHA-256, scrypt with a salt and its
verification, `trim().toLowerCase()`, URL parsing, and the check of a passkey assertion, which gives
the new counter). -/
structure Env where
  issuer : String
  environment : String
  yolo : Bool
  terminalDataRetentionDays : Nat
  sha256 : String → List UInt8
  hashPassword : String → String → String
  verifyPassword : String → String → Bool
  trimLowerCase : String → String
  verifyAuthenticationResponse : AssertionInput → Option Nat
  isMcpResourceUriAllowed : String → Bool
  parseUrl : String → Option Url

/-- `hashOpaqueToken`: the at-rest form of a token. -/
def hashOpaqueToken (env : Env) (token : String) : String :=
  Security.sha256Hex env.sha256 token

/-- A deployment for concrete runs; `digests` holds the SHA-256 values the run needs. -/
def Env.sample (digests : List (String × List UInt8)) : Env where
  issuer := "https://auth.example.com"
  environment := "production"
  yolo := false
  terminalDataRetentionDays := 90
  sha256 := fun s => (digests.lookup s).getD []
  hashPassword := fun _ _ => ""
  verifyPassword := fun _ _ => false
  trimLowerCase := fun s => s
  verifyAuthenticationResponse := fun _ => none
  isMcpResourceUriAllowed := fun _ => true
  parseUrl := fun _ => none

end Keyforge
