/-
Client authentication by a signed assertion (`oauth/private-key-jwt.ts`). The key set that the client
publishes is what fetching it gives: any document, or none if it could not be fetched safely. Signatures
and the claims that `jose` checks itself are the library's; the lifetime, the `jti` and the record of used
assertions are the code's own.
-/
import Keyforge.Env
import Keyforge.Lib.Json
import Keyforge.OAuth.RequestLimits
import Keyforge.World

namespace Keyforge.OAuth

open Lib Db

/-! ## The client's keys -/

def CLIENT_ASSERTION_MAX_LIFETIME_SECONDS : Nat := 5 * 60

def CLIENT_ASSERTION_CLOCK_TOLERANCE_SECONDS : Nat := 5

def CLIENT_JWKS_MAX_KEYS : Nat := 16

def CLIENT_ASSERTION_ALGORITHMS : List String :=
  ["RS256", "PS256", "ES256", "EdDSA"]

def PRIVATE_JWK_FIELDS : List String :=
  ["d", "p", "q", "dp", "dq", "qi", "oth", "k"]

def isText (p : String → Bool) : Json → Bool
  | .str s => p s
  | _ => false

/-- The elements of an array of strings. -/
def texts : Json → Option (List String)
  | .arr elements => elements.mapM fun element => match element with
    | .str s => some s
    | _ => none
  | _ => none

/-- Members that the schema does not name pass through, but none may be private key material. -/
def publicJwkSchema : Json → Bool
  | .obj members =>
    (members.lookup "kty").any (isText (["RSA", "EC", "OKP"].contains ·)) &&
    (members.lookup "kid").any (isText fun kid => 1 ≤ utf16Length kid && utf16Length kid ≤ 256) &&
    (members.lookup "use").all (isText (· = "sig")) &&
    (members.lookup "alg").all (isText (CLIENT_ASSERTION_ALGORITHMS.contains ·)) &&
    (members.lookup "key_ops").all (fun ops => (texts ops).any (·.contains "verify")) &&
    !(PRIVATE_JWK_FIELDS.any fun field => (members.lookup field).isSome)
  | _ => false

/-- The schema is strict: there is nothing but the keys, and no two have one `kid`. -/
def jwksSchema : Json → Bool
  | .obj members =>
    members.all (·.1 = "keys") && (members.lookup "keys").any fun keys => match keys with
      | .arr keys =>
        1 ≤ keys.length && keys.length ≤ CLIENT_JWKS_MAX_KEYS && keys.all publicJwkSchema &&
          decide (keys.map fun key => (key.extract "kid").castText).Nodup
      | _ => false
  | _ => false

/-! ## The assertion's claims -/

/-- A claim, as `typeof` and `Number.isInteger` tell it. -/
inductive ClaimValue where
  | missing
  | integer (n : Int)
  | text (s : String)
  | other
  deriving DecidableEq, Repr

structure JWTPayload where
  iat : ClaimValue
  exp : ClaimValue
  jti : ClaimValue
  deriving DecidableEq, Repr

structure JWTVerifyOptions where
  algorithms : List String
  issuer : String
  subject : String
  audience : String
  clockTolerance : Nat
  deriving DecidableEq, Repr

/-- `jose`: the claims that an assertion carries, and whether one of the keys signed it and its claims but
for its end satisfy the options. -/
structure Jose where
  payload : String → JWTPayload
  accepts : String → Json → JWTVerifyOptions → Bool

/-- The claim is a time that is over. -/
def ClaimValue.over (now : Int) : ClaimValue → Bool
  | .integer n => n ≤ now
  | _ => false

/-- An assertion is rejected once the tolerance after its end has passed. -/
def jwtVerify (jose : Jose) (now : Nat) (assertion : String) (jwks : Json) (options : JWTVerifyOptions) :
    Option JWTPayload :=
  if jose.accepts assertion jwks options && !(jose.payload assertion).exp.over (now - options.clockTolerance) then
    some (jose.payload assertion)
  else none

/-- The end and the `jti` of an assertion that is neither too old nor too long-lived. -/
def assertionLifetime (now : Nat) (payload : JWTPayload) : Option (Int × String) :=
  match payload.iat, payload.exp, payload.jti with
  | .integer iat, .integer exp, .text jti =>
    if iat < now - CLIENT_ASSERTION_MAX_LIFETIME_SECONDS || iat > now + CLIENT_ASSERTION_CLOCK_TOLERANCE_SECONDS ||
        exp ≤ now - CLIENT_ASSERTION_CLOCK_TOLERANCE_SECONDS || exp > now + CLIENT_ASSERTION_MAX_LIFETIME_SECONDS ||
        utf16Length jti < 1 || utf16Length jti > 256 then none
    else some (exp, jti)
  | _, _, _ => none

/-! ## Verification -/

def assertionJtiHash (env : Env) (clientId jti : String) : String :=
  Security.sha256Hex env.sha256 (clientId ++ "\x00" ++ jti)

/-- `INSERT OR IGNORE INTO oauth_client_assertion_jtis`: whether it changed a row, or nothing if the row's
client is not there. -/
def insertAssertionJti (row : ClientAssertionJtiRow) (db : Database) : Option (Bool × Database) :=
  if (db.clients.get? row.clientId).isNone then none
  else if (db.clientAssertionJtis.get? row.jtiHash).isSome then some (false, db)
  else some (true, { db with clientAssertionJtis := db.clientAssertionJtis.insert row })

/-- The write that makes an assertion single use. -/
def recordAssertion (row : ClientAssertionJtiRow) (assertion : String) : App (Option Bool) :=
  ioLogged [.assertionRefused row.clientId assertion] fun w =>
    match insertAssertionJti row w.db with
    | some (true, db) => (some true, { w with db, log := .assertionAccepted row.clientId assertion :: w.log })
    | some (false, _) => (some false, { w with log := .assertionRefused row.clientId assertion :: w.log })
    | none => (none, { w with log := .assertionRefused row.clientId assertion :: w.log })

/-- `fetched` is what the network and the checks of the answer come to. -/
def verifyPrivateKeyJwt (env : Env) (jose : Jose) (fetched : Option Json) (client : ClientRow) (assertion audience : String) :
    App Unit := do
  require (client.registrationType = .clientIdMetadata && client.tokenEndpointAuthMethods.contains .privateKeyJwt &&
    client.metadataJwksUri.isSome) (.privateKeyJwt "Client is not configured for private_key_jwt")
  match ← query fun _ => fetched with
  | none => throw (.privateKeyJwt "Client JWKS could not be fetched safely")
  | some jwks =>
    require (jwksSchema jwks) (.privateKeyJwt "Client JWKS is malformed or unsafe")
    let verifiedAt ← clock
    let verified := jwtVerify jose verifiedAt assertion jwks
      { algorithms := CLIENT_ASSERTION_ALGORITHMS, issuer := client.clientId, subject := client.clientId, audience,
        clockTolerance := CLIENT_ASSERTION_CLOCK_TOLERANCE_SECONDS }
    match verified with
    | none => throw (.privateKeyJwt "Client assertion signature or claims are invalid")
    | some payload =>
      let now ← clockLogged fun now =>
        if (assertionLifetime now payload).isSome then [.assertionChecked client.clientId assertion] else []
      match assertionLifetime now payload with
      | none => throw (.privateKeyJwt "Client assertion lifetime or jti is invalid")
      | some (exp, jti) =>
        let inserted ← recordAssertion
          { jtiHash := assertionJtiHash env client.clientId jti, clientId := client.clientId, expiresAt := exp.toNat,
            createdAt := now } assertion
        match inserted with
        | none => throw .storage
        | some inserted => require inserted (.privateKeyJwt "Client assertion was already used")

end Keyforge.OAuth
