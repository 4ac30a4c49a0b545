/-
The D1 tables the modelled functions read and write (`migrations/*.sql`), with the columns they use.
Timestamps are UNIX seconds, a missing `revoked_at` is SQL `NULL`, 0/1 columns are `Bool`, and JSON
columns are the values they hold. Every table carries its primary key's uniqueness.
-/
import Keyforge.Lib.Table
import Keyforge.OAuth.PermissionRules
import Keyforge.Tokens.Keyring

namespace Keyforge.Db

open Lib (Table)

/-! ## Accounts -/

structure UserRow where
  id : String
  email : String
  loginAlias : String
  emailVerified : Bool
  name : Option String
  disabled : Bool
  securityVersion : Nat
  updatedAt : Nat
  deriving DecidableEq, Repr

structure GroupRow where
  id : String
  name : String
  description : Option String
  isPublic : Bool
  priority : Nat
  deriving DecidableEq, Repr

structure UserGroupRow where
  userId : String
  groupId : String
  createdAt : Nat
  deriving DecidableEq, Repr

structure GroupMembershipRequestRow where
  userId : String
  groupId : String
  deriving DecidableEq, Repr

/-- `condition` is missing when `condition_json` holds no condition. -/
structure PermissionGroupRuleRow where
  id : String
  groupId : String
  effect : OAuth.PermissionRuleEffect
  condition : Option OAuth.PermissionRuleCondition
  position : Nat
  deriving Repr

structure PasswordCredentialRow where
  id : String
  userId : String
  passwordHash : String
  name : Option String
  adminEligible : Bool
  createdAt : Nat
  updatedAt : Nat
  lastUsedAt : Option Nat
  deriving DecidableEq, Repr

/-- `credential_id` is unique. -/
structure WebauthnCredentialRow where
  id : String
  userId : String
  credentialId : String
  publicKey : String
  counter : Nat
  lastUsedAt : Option Nat
  deriving DecidableEq, Repr

inductive AuthMethod where
  | password
  | magicLink
  | passkey
  deriving DecidableEq, Repr

structure SessionRow where
  id : String
  userId : String
  tokenHash : String
  authMethod : AuthMethod
  authTime : Nat
  passkeyAuthenticated : Bool
  createdAt : Nat
  lastSeenAt : Nat
  expiresAt : Nat
  revokedAt : Option Nat
  deriving DecidableEq, Repr

/-! ## Clients and resources -/

inductive ClientType where
  | publicClient
  | confidential
  deriving DecidableEq, Repr

inductive ClientKind where
  | application
  | device
  | service
  deriving DecidableEq, Repr

inductive TokenEndpointAuthMethod where
  | clientSecretBasic
  | clientSecretPost
  | none
  | privateKeyJwt
  deriving DecidableEq, Repr

inductive RegistrationType where
  | static
  | clientIdMetadata
  deriving DecidableEq, Repr

inductive MetadataClientPolicy where
  | disabled
  | consentRequired
  | adminApproved
  deriving DecidableEq, Repr

/-- `metadataFetchedAt` is not a column: it is the history of the metadata, the time at which the stored
document was fetched. -/
structure ClientRow where
  clientId : String
  name : String
  type : ClientType
  clientKind : ClientKind
  redirectUris : List String
  allowedScopes : List String
  allowedGrantTypes : List String
  allowedResources : List String
  defaultResource : Option String
  tokenEndpointAuthMethods : List TokenEndpointAuthMethod
  enabled : Bool
  registrationType : RegistrationType
  metadataFingerprint : Option String
  metadataExpiresAt : Option Nat
  metadataJwksUri : Option String
  metadataFetchedAt : Option Nat
  deriving DecidableEq, Repr

structure ResourceRow where
  resourceUri : String
  name : String
  allowedScopes : List String
  enabled : Bool
  mcpEnabled : Bool
  metadataClientPolicy : MetadataClientPolicy
  deriving DecidableEq, Repr

structure MetadataClientApprovalRow where
  clientId : String
  resourceUri : String
  deriving DecidableEq, Repr

structure ConsentRow where
  id : String
  userId : String
  clientId : String
  scope : String
  resource : String
  metadataFingerprint : Option String
  updatedAt : Nat
  deriving DecidableEq, Repr

/-! ## Grants -/

structure RefreshTokenRow where
  id : String
  tokenHash : String
  userId : String
  clientId : String
  sessionId : Option String
  resource : String
  scope : String
  generation : Nat
  rememberMe : Bool
  createdAt : Nat
  lastRotatedAt : Nat
  expiresAt : Nat
  authTime : Nat
  revokedAt : Option Nat
  deriving DecidableEq, Repr

structure AuthorizationGrantRow where
  id : String
  userId : String
  clientId : String
  sessionId : Option String
  scope : String
  resource : String
  grantType : String
  createdAt : Nat
  revokedAt : Option Nat
  deriving DecidableEq, Repr

inductive DeviceStatus where
  | pending
  | approved
  | denied
  | expired
  | consumed
  deriving DecidableEq, Repr

structure DeviceRow where
  id : String
  deviceCodeHash : String
  clientId : String
  resourceUri : Option String
  scope : String
  status : DeviceStatus
  userId : Option String
  expiresAt : Nat
  lastPolledAt : Option Nat
  pollIntervalSeconds : Nat
  sessionId : Option String
  authTime : Option Nat
  createdAt : Nat
  deriving DecidableEq, Repr

/-! ## Emailed capabilities -/

structure EmailVerificationRow where
  id : String
  userId : String
  email : String
  tokenHash : String
  createdAt : Nat
  expiresAt : Nat
  consumedAt : Option Nat
  deriving DecidableEq, Repr

structure PasswordResetTokenRow where
  id : String
  userId : String
  tokenHash : String
  createdAt : Nat
  expiresAt : Nat
  consumedAt : Option Nat
  deriving DecidableEq, Repr

/-! ## Continuations of a login -/

structure ReauthContinuationRow where
  tokenHash : String
  sessionId : String
  requestHash : String
  expiresAt : Nat
  createdAt : Nat
  consumedAt : Option Nat
  deriving DecidableEq, Repr

structure ClientAssertionJtiRow where
  jtiHash : String
  clientId : String
  expiresAt : Nat
  createdAt : Nat
  deriving DecidableEq, Repr

/-! ## Signing keys and maintenance -/

structure SigningKeyStateRow where
  keyring : Tokens.StoredKeyring
  version : Nat
  updatedAt : Nat
  deriving DecidableEq, Repr

structure MaintenanceStateRow where
  key : String
  value : String
  updatedAt : Nat
  deriving DecidableEq, Repr

structure MaintenanceLeaseRow where
  jobName : String
  ownerToken : String
  leaseUntil : Nat
  updatedAt : Nat
  deriving DecidableEq, Repr

/-- The tables of the background jobs; `signing_key_state` has one row at most, `id = 1`. -/
structure OperationsTables where
  signingKeyState : Option SigningKeyStateRow
  maintenanceState : Table MaintenanceStateRow.key
  maintenanceLeases : Table MaintenanceLeaseRow.jobName

/-! ## The database -/

structure Database where
  users : Table UserRow.id
  groups : Table GroupRow.id
  userGroups : Table fun r : UserGroupRow => (r.userId, r.groupId)
  groupMembershipRequests : Table fun r : GroupMembershipRequestRow => (r.userId, r.groupId)
  permissionGroupRules : Table PermissionGroupRuleRow.id
  passwordCredentials : Table PasswordCredentialRow.id
  webauthnCredentials : Table WebauthnCredentialRow.id
  sessions : Table SessionRow.id
  clients : Table ClientRow.clientId
  resources : Table ResourceRow.resourceUri
  approvals : Table fun r : MetadataClientApprovalRow => (r.clientId, r.resourceUri)
  consents : Table fun r : ConsentRow => (r.userId, r.clientId, r.resource)
  refreshTokens : Table RefreshTokenRow.id
  grants : Table AuthorizationGrantRow.id
  devices : Table DeviceRow.id
  emailVerifications : Table EmailVerificationRow.id
  passwordResetTokens : Table PasswordResetTokenRow.id
  reauthContinuations : Table ReauthContinuationRow.tokenHash
  clientAssertionJtis : Table ClientAssertionJtiRow.jtiHash
  operations : OperationsTables

def Database.empty : Database :=
  ⟨∅, ∅, ∅, ∅, ∅, ∅, ∅, ∅, ∅, ∅, ∅, ∅, ∅, ∅, ∅, ∅, ∅, ∅, ∅, ⟨none, ∅, ∅⟩⟩

end Keyforge.Db
