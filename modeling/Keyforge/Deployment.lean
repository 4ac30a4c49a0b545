/-
A small deployment from which the concrete runs of the later modules start: one user in one
permission group that allows one application, a static client of that application, one API, the
user's consent and browser session, and an approved device.
-/
import Keyforge.Env
import Keyforge.World

namespace Keyforge.Deployment

open Lib Db

def user : UserRow :=
  { id := "usr_a", email := "a@example.com", loginAlias := "a", emailVerified := true, name := none,
    disabled := false, securityVersion := 1, updatedAt := 0 }

def client : ClientRow :=
  { clientId := "app", name := "App", type := .publicClient, clientKind := .application,
    redirectUris := ["https://app.example.com/callback"], allowedScopes := ["openid", "offline_access"],
    allowedGrantTypes := ["authorization_code", "refresh_token", "urn:ietf:params:oauth:grant-type:device_code"],
    allowedResources := ["https://api.example.com"], defaultResource := none, tokenEndpointAuthMethods := [.none],
    enabled := true, registrationType := .static, metadataFingerprint := none, metadataExpiresAt := none,
    metadataJwksUri := none, metadataFetchedAt := none }

def resource : ResourceRow :=
  { resourceUri := "https://api.example.com", name := "API", allowedScopes := ["api.read"], enabled := true, mcpEnabled := false,
    metadataClientPolicy := .disabled }

def consent : ConsentRow :=
  { id := "con_a", userId := "usr_a", clientId := "app", scope := "openid offline_access",
    resource := "https://api.example.com", metadataFingerprint := none, updatedAt := 0 }

/-- A session from second 0 with the default lifetime. -/
def session : SessionRow :=
  { id := "sess_a", userId := "usr_a", tokenHash := "session-hash", authMethod := .password, authTime := 0,
    passkeyAuthenticated := false, createdAt := 0, lastSeenAt := 0, expiresAt := SESSION_TTL.default,
    revokedAt := none }

def device : DeviceRow :=
  { id := "dev_a", deviceCodeHash := "device-hash", clientId := "app", resourceUri := some "https://api.example.com",
    scope := "openid offline_access", status := .approved, userId := some "usr_a", expiresAt := 10000,
    lastPolledAt := none, pollIntervalSeconds := 5, sessionId := some "sess_a", authTime := some 0,
    createdAt := 0 }

def rule : PermissionGroupRuleRow :=
  { id := "rule_a", groupId := "grp_a", effect := .allow, condition := some (.single .application .equals "app"),
    position := 0 }

def database : Database :=
  { Database.empty with
    users := (∅ : Table UserRow.id).insert user
    groups := (∅ : Table GroupRow.id).insert { id := "grp_a", name := "staff", description := none, isPublic := true, priority := 0 }
    userGroups := (∅ : Table fun r : UserGroupRow => (r.userId, r.groupId)).insert
      { userId := "usr_a", groupId := "grp_a", createdAt := 0 }
    permissionGroupRules := (∅ : Table PermissionGroupRuleRow.id).insert rule
    sessions := (∅ : Table SessionRow.id).insert session
    clients := (∅ : Table ClientRow.clientId).insert client
    resources := (∅ : Table ResourceRow.resourceUri).insert resource
    consents := (∅ : Table fun r : ConsentRow => (r.userId, r.clientId, r.resource)).insert consent
    devices := (∅ : Table DeviceRow.id).insert device }

def world : World where
  nowMs := 1000000
  db := database
  families := fun _ => .empty
  codes := fun _ => .empty
  oneTimeTokens := fun _ => .empty
  challenges := fun _ => .empty
  kv := .empty
  log := []

/-- A PKCE verifier (RFC 7636, appendix B). -/
def verifier : String := "dBjftJeZ4CVP-mB92K27uhbUJU1p1r_wW1gFWFOEjXk"

/-- Capabilities as they are mailed. -/
def resetToken : String := "reset-tokenaaaaaaaaaaaaaaaaaaaaaaaaaaaaaaaa"

def changeToken : String := "change-tokenbbbbbbbbbbbbbbbbbbbbbbbbbbbbbbb"

/-- The SHA-256 digests of the tokens, codes and verifiers that the runs present. -/
def digests : List (String × List UInt8) :=
  [("rtf_a.secret", [138, 164, 62, 55, 19, 42, 147, 233, 5, 84, 5, 14, 166, 33, 141, 176, 54, 251, 251, 20, 23, 73, 29,
    110, 137, 205, 48, 33, 84, 204, 143, 26]),
   ("rtf_a.next", [144, 144, 108, 88, 159, 19, 201, 253, 62, 67, 186, 247, 197, 237, 72, 155, 8, 70, 158, 57, 45, 146, 38,
    164, 181, 42, 86, 159, 215, 98, 82, 113]),
   ("code_a", [35, 242, 70, 59, 96, 19, 60, 185, 175, 135, 137, 117, 193, 82, 218, 92, 210, 111, 196, 108, 172, 134, 254,
    169, 40, 149, 164, 174, 168, 228, 175, 26]),
   ("code_b", [220, 12, 98, 178, 194, 8, 0, 187, 66, 193, 25, 164, 51, 71, 99, 142, 140, 253, 53, 205, 170, 29, 168,
    189, 103, 121, 27, 148, 151, 102, 15, 108]),
   ("rtf_b.secret", [155, 222, 181, 246, 53, 62, 245, 133, 9, 156, 144, 82, 188, 194, 117, 252, 26, 84, 29, 119, 77,
    57, 79, 124, 153, 212, 216, 253, 32, 125, 124, 174]),
   ("token_b", [20, 47, 42, 46, 94, 29, 48, 102, 254, 139, 178, 203, 99, 22, 9, 146, 251, 21, 183, 30, 100, 48, 158,
    89, 206, 85, 90, 47, 90, 114, 13, 181]),
   (resetToken, [188, 211, 238, 143, 142, 96, 35, 99, 122, 58, 27, 160, 105, 44, 201, 77, 22, 40, 244, 11, 150, 244,
    93, 70, 217, 52, 214, 173, 55, 31, 13, 98]),
   (changeToken, [80, 157, 203, 147, 77, 11, 61, 208, 193, 124, 186, 206, 84, 237, 156, 149, 207, 127, 36, 65, 28,
    196, 80, 188, 182, 215, 82, 236, 160, 150, 103, 236]),
   (verifier, [19, 211, 30, 150, 26, 26, 216, 236, 47, 22, 177, 12, 76, 152, 46, 8, 118, 168, 120, 173, 109, 241, 68, 86,
    110, 225, 137, 74, 203, 112, 249, 195])]

def env : Env := .sample digests

/-- An input on which a step succeeds after one second. -/
def ok : Input := ⟨1000, false, false, fun _ => false⟩

/-! ## With passwords -/

/-- Passwords with a salt and what scrypt makes of them (N = 32768, r = 8, p = 1). -/
def passwords : List (String × String × String) :=
  [("correct-horse-battery", "AAECAwQFBgcICQoLDA0ODw",
    "scrypt$32768$8$1$AAECAwQFBgcICQoLDA0ODw$eK_7eoRxOwp93bNXDg3wtpAR3LZDHor_AkRidqfjxAk"),
   ("a-new-password", "EBESExQVFhcYGRobHB0eHw",
    "scrypt$32768$8$1$EBESExQVFhcYGRobHB0eHw$puTSjM_hyryg_ekZ2QB22il4Fgr379NxMP1LPH7ARY4")]

/-- The deployment's environment, with the passwords above. -/
def passwordEnv : Env :=
  { env with
    hashPassword := fun salt password =>
      ((passwords.find? fun p => p.1 = password && p.2.1 = salt).map (·.2.2)).getD ""
    verifyPassword := fun password stored => passwords.any fun p => p.1 = password && p.2.2 = stored }

def passwordRow : PasswordCredentialRow :=
  { id := "pwd_a", userId := "usr_a",
    passwordHash := "scrypt$32768$8$1$AAECAwQFBgcICQoLDA0ODw$eK_7eoRxOwp93bNXDg3wtpAR3LZDHor_AkRidqfjxAk",
    name := none, adminEligible := true, createdAt := 0, updatedAt := 0, lastUsedAt := none }

/-- The deployment with the first password as the user's. -/
def passwordWorld : World :=
  { world with
    db := { database with passwordCredentials := (∅ : Table PasswordCredentialRow.id).insert passwordRow } }

/-! ## With a live family -/

def familyObject : Do.RefreshFamilyStorage :=
  Do.init 1000 { userId := "usr_a", clientId := "app", resource := "https://api.example.com",
                 scope := "openid offline_access", authTime := 0,
                 currentTokenHash := hashOpaqueToken env "rtf_a.secret", absoluteExpiresAt := 90000 } .empty

def familyRow : RefreshTokenRow :=
  { id := "rtf_a", tokenHash := hashOpaqueToken env "rtf_a.secret", userId := "usr_a", clientId := "app",
    sessionId := some "sess_a", resource := "https://api.example.com", scope := "openid offline_access",
    generation := 0, rememberMe := false, createdAt := 1000, lastRotatedAt := 1000, expiresAt := 90000, authTime := 0,
    revokedAt := none }

/-- The deployment with one live family. -/
def familyWorld : World :=
  { world with
    db := { database with refreshTokens := (∅ : Table RefreshTokenRow.id).insert familyRow }
    families := fun f => if f = "rtf_a" then familyObject else .empty }

/-! ## With an authorization code -/

def authorizationCode : Do.AuthorizationCodePayload :=
  { issuer := "https://auth.example.com", clientId := "app", userId := "usr_a",
    redirectUri := "https://app.example.com/cb", scope := "openid offline_access",
    resource := "https://api.example.com", resourceRequired := false, metadataFingerprint := none,
    codeChallenge := "E9Melhoa2OwvFrEMTJguCHaoeK1t8URWbuGJSstw-cM", nonce := none, authTime := 0,
    sessionId := "sess_a" }

/-- The deployment with one code just issued. -/
def codeWorld : World :=
  { world with
    codes := fun h =>
      if h = hashOpaqueToken env "code_a" then .store 1000000 authorizationCode 60 .empty else .empty }

end Keyforge.Deployment
