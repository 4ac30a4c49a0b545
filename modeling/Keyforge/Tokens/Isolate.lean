/-
What an isolate remembers of the signing keys (`tokens/key-rotation.ts`, `tokens/jwt.ts`): the keyring
for 30 seconds, the private keys it has imported, and the key set it verifies with. Each function gets
the time in milliseconds and what a load from D1 returns at that time.
-/
import Keyforge.Tokens.KeyRotation

namespace Keyforge.Tokens

structure KeyringCache where
  keyring : StoredKeyring
  expiresAt : Nat
  deriving DecidableEq, Repr

/-- The local key set, under the `kid`s of its keys. -/
structure LocalJwkSet where
  kids : String
  jwks : List PublicJwk
  deriving DecidableEq, Repr

structure Isolate where
  keyringCache : Option KeyringCache
  privateKeyCache : List (String × String)
  localJwkSetCache : Option LocalJwkSet
  deriving DecidableEq, Repr

/-- An isolate that has just started. -/
def Isolate.fresh : Isolate := ⟨none, [], none⟩

def rememberKeyring (nowMs : Nat) (keyring : StoredKeyring) (isolate : Isolate) : Isolate :=
  { isolate with keyringCache := some { keyring, expiresAt := nowMs + KEYRING_CACHE_TTL_MS } }

/-- The keyring that is remembered; an entry that has expired is dropped. -/
def cachedKeyring (nowMs : Nat) (isolate : Isolate) : Option StoredKeyring × Isolate :=
  match isolate.keyringCache with
  | none => (none, isolate)
  | some cache =>
    if cache.expiresAt ≤ nowMs then (none, { isolate with keyringCache := none }) else (some cache.keyring, isolate)

/-- `load` is what `loadOrInitializeKeyring` returns. -/
def ensureKeyring (nowMs : Nat) (load : Option StoredKeyring) (isolate : Isolate) : Option StoredKeyring × Isolate :=
  let (cached, isolate) := cachedKeyring nowMs isolate
  match cached.filter hasUsableActiveKey with
  | some keyring => (some keyring, isolate)
  | none =>
    match load with
    | some keyring => (some keyring, rememberKeyring nowMs keyring isolate)
    | none => (none, isolate)

structure ActiveSigningKey where
  kid : String
  privateKey : String
  deriving DecidableEq, Repr

def getActiveSigningKey (nowMs : Nat) (load : Option StoredKeyring) (isolate : Isolate) :
    Option ActiveSigningKey × Isolate :=
  match ensureKeyring nowMs load isolate with
  | (none, isolate) => (none, isolate)
  | (some keyring, isolate) =>
    let activeKid := keyring.activeKid
    match isolate.privateKeyCache.lookup activeKid with
    | some cached => (some ⟨activeKid, cached⟩, isolate)
    | none =>
      match (keyring.keys.find? fun key => key.kid = activeKid && key.retiredAt.isNone).bind (·.privateJwk) with
      | some imported =>
        (some ⟨activeKid, imported⟩, { isolate with privateKeyCache := (activeKid, imported) :: isolate.privateKeyCache })
      | none => (none, isolate)

/-- Expired retired keys are never trusted or published. -/
def getPublicJwks (nowMs : Nat) (load : Option StoredKeyring) (isolate : Isolate) : Option (List PublicJwk) × Isolate :=
  match ensureKeyring nowMs load isolate with
  | (none, isolate) => (none, isolate)
  | (some keyring, isolate) => (some ((publishedKeys keyring (nowMs / 1000)).map (·.publicJwk)), isolate)

/-- The seconds for which `/.well-known/jwks.json` may be cached, and used stale after that
(`routes/well-known.ts`). -/
def JWKS_MAX_AGE : Nat := 60

def JWKS_STALE_WHILE_REVALIDATE : Nat := 30

/-- `getSigningKeyStatus` loads the row, and remembers what it finds. -/
def rememberStatus (nowMs : Nat) (load : Option StoredKeyring) (isolate : Isolate) : Isolate :=
  match load with
  | none => { isolate with keyringCache := none }
  | some keyring => rememberKeyring nowMs keyring isolate

/-! ## `tokens/jwt.ts` -/

/-- `keys.map((key) => key.kid ?? "").join("\0")`. -/
def joinKids (keys : List PublicJwk) : String :=
  String.ofList (['\x00'].intercalate (keys.map fun key => (key.kid.getD "").toList))

/-- The key set that verifies a token. -/
def localJwkSet (nowMs : Nat) (load : Option StoredKeyring) (isolate : Isolate) : Option (List PublicJwk) × Isolate :=
  match getPublicJwks nowMs load isolate with
  | (none, isolate) => (none, isolate)
  | (some keys, isolate) =>
    match isolate.localJwkSetCache.filter fun cache => cache.kids = joinKids keys with
    | some cache => (some cache.jwks, isolate)
    | none => (some keys, { isolate with localJwkSetCache := some { kids := joinKids keys, jwks := keys } })

/-- The header and times of a token. -/
structure SignedJwt where
  kid : String
  iat : Nat
  exp : Nat
  privateKey : String
  deriving DecidableEq, Repr

def signJwt (nowMs : Nat) (load : Option StoredKeyring) (expiresInSeconds : Nat) (isolate : Isolate) :
    Option SignedJwt × Isolate :=
  match getActiveSigningKey nowMs load isolate with
  | (none, isolate) => (none, isolate)
  | (some key, isolate) =>
    let issuedAt := nowMs / 1000
    (some { kid := key.kid, iat := issuedAt, exp := issuedAt + expiresInSeconds, privateKey := key.privateKey }, isolate)

end Keyforge.Tokens
