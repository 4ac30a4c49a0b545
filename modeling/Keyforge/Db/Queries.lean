/-
The queries the token endpoint and the withdrawals use (`db/queries/*.ts`): users, clients,
resources, consents, device sessions and grants. Each function is one D1 statement or batch, or a
few in the order the source issues them.
-/
import Keyforge.Db.ScopeMerge
import Keyforge.Db.Triggers

namespace Keyforge.Db

open Lib OAuth

/-! ## Users -/

def getUserById (id : String) : App (Option UserRow) :=
  select fun db => db.users.get? id

/-! ## Clients -/

def getClientById (clientId : String) : App (Option ClientRow) :=
  select fun db => db.clients.get? clientId

def isMetadataClientApproved (clientId resourceUri : String) : App Bool :=
  select fun db => (db.approvals.get? (clientId, resourceUri)).isSome

def MAX_METADATA_CLIENT_RECORDS : Nat := 10000

/-- `metadataFetchedAt` is the history of the metadata: when its document was fetched. -/
structure UpsertMetadataClientInput where
  clientId : String
  name : String
  redirectUris : List String
  allowedGrantTypes : List String
  tokenEndpointAuthMethods : List TokenEndpointAuthMethod
  metadataJwksUri : Option String
  metadataFingerprint : String
  resourceUri : String
  allowedScopes : List String
  metadataExpiresAt : Nat
  metadataFetchedAt : Option Nat
  deriving DecidableEq, Repr

/-- A client that may authenticate with nothing is public. -/
def UpsertMetadataClientInput.clientType (input : UpsertMetadataClientInput) : ClientType :=
  if input.tokenEndpointAuthMethods.contains .none then .publicClient else .confidential

/-- The row `INSERT OR IGNORE` writes for a client not seen before. -/
def metadataClientRow (input : UpsertMetadataClientInput) : ClientRow :=
  { clientId := input.clientId, name := input.name, type := input.clientType, clientKind := .application, redirectUris := input.redirectUris,
    allowedScopes := input.allowedScopes, allowedGrantTypes := input.allowedGrantTypes,
    allowedResources := [input.resourceUri], defaultResource := none,
    tokenEndpointAuthMethods := input.tokenEndpointAuthMethods, enabled := true, registrationType := .clientIdMetadata,
    metadataFingerprint := some input.metadataFingerprint, metadataExpiresAt := some input.metadataExpiresAt,
    metadataJwksUri := input.metadataJwksUri, metadataFetchedAt := input.metadataFetchedAt }

/-- The columns the closing batch writes; `current` is the row read before it. -/
def metadataClientColumns (input : UpsertMetadataClientInput) (current c : ClientRow) : ClientRow :=
  { c with
    name := input.name, type := input.clientType, redirectUris := input.redirectUris,
    allowedScopes := (current.allowedScopes ++ input.allowedScopes).eraseDups,
    allowedGrantTypes := input.allowedGrantTypes,
    allowedResources := (current.allowedResources ++ [input.resourceUri]).eraseDups,
    metadataExpiresAt := some input.metadataExpiresAt, metadataFingerprint := some input.metadataFingerprint,
    tokenEndpointAuthMethods := input.tokenEndpointAuthMethods, metadataJwksUri := input.metadataJwksUri,
    metadataFetchedAt := input.metadataFetchedAt }

theorem metadataClientColumns_clientId (input : UpsertMetadataClientInput) (current c : ClientRow) :
    (metadataClientColumns input current c).clientId = c.clientId := rfl

/-- The closing batch: the client's columns, and if the fingerprint changed since `current` was read,
every family and grant of the client. -/
def metadataClientBatch (now : Nat) (input : UpsertMetadataClientInput) (current : ClientRow) (db : Database) :
    Database :=
  let db := { db with
    clients := db.clients.update (fun c => c.clientId = input.clientId ∧ c.registrationType = .clientIdMetadata)
      (metadataClientColumns input current) (metadataClientColumns_clientId input current) }
  if current.metadataFingerprint ≠ some input.metadataFingerprint then
    { db with
      refreshTokens := db.refreshTokens.update (fun r => r.clientId = input.clientId ∧ r.revokedAt = none)
        (fun r => { r with revokedAt := some now }) fun _ => rfl
      grants := db.grants.update (fun g => g.clientId = input.clientId ∧ g.revokedAt = none)
        (fun g => { g with revokedAt := some now }) fun _ => rfl }
  else db

def metadataClientEvents (input : UpsertMetadataClientInput) (current : ClientRow) : List Event :=
  if current.metadataFingerprint ≠ some input.metadataFingerprint then [.fingerprintChanged input.clientId] else []

/-- The writes of `upsertMetadataClient`: insert the row if the client is new, read what is stored
now, and close with the batch. -/
def persistMetadataClient (input : UpsertMetadataClientInput) : App ClientRow := do
  let now ← clock
  d1 fun db => ((), { db with clients := db.clients.insert (metadataClientRow input) })
  let current ← getClientById input.clientId
  match current.filter fun c => c.registrationType = .clientIdMetadata with
  | none => throw (.error "Metadata client could not be persisted")
  | some current =>
    d1Logged (fun _ => metadataClientEvents input current) fun db => ((), metadataClientBatch now input current db)
    let updated ← getClientById input.clientId
    match updated with
    | none => throw (.error "Metadata client disappeared after registration")
    | some updated => pure updated

def upsertMetadataClient (input : UpsertMetadataClientInput) : App ClientRow := do
  let existing ← getClientById input.clientId
  require (existing.all fun c => c.registrationType = .clientIdMetadata)
    (.error "Client Identifier URL conflicts with a static client registration")
  if existing.isNone then
    let count ← select fun db => (db.clients.select fun c => c.registrationType = .clientIdMetadata).length
    require (count < MAX_METADATA_CLIENT_RECORDS) (.error "Metadata client record capacity reached")
  persistMetadataClient input

/-- `DELETE FROM oauth_clients` for these clients, with the foreign keys that refer to them and, row
by row, the trigger on the permission rules. -/
def deleteClients (clientIds : List String) (db : Database) : Database :=
  let deleted := clientIds.filter fun id => (db.clients.get? id).isSome
  { db with
    clients := db.clients.delete fun c => deleted.contains c.clientId
    permissionGroupRules := deleted.foldl (fun rules id => prunePermissionRulesAfterClientDelete id rules)
      db.permissionGroupRules
    approvals := db.approvals.delete fun a => deleted.contains a.clientId
    consents := db.consents.delete fun c => deleted.contains c.clientId
    refreshTokens := db.refreshTokens.delete fun r => deleted.contains r.clientId
    grants := db.grants.delete fun g => deleted.contains g.clientId
    devices := db.devices.delete fun d => deleted.contains d.clientId
    clientAssertionJtis := db.clientAssertionJtis.delete fun j => deleted.contains j.clientId }

def deleteClient (id : String) : App Bool :=
  d1 fun db => ((db.clients.get? id).isSome, deleteClients [id] db)

/-! ## Resources -/

def getResourceByUri (resourceUri : String) : App (Option ResourceRow) :=
  select fun db => db.resources.get? resourceUri

/-- The table's `CHECK`: only an MCP resource may admit metadata clients. -/
def resourceCheck (r : ResourceRow) : Bool :=
  r.metadataClientPolicy = .disabled || r.mcpEnabled

structure CreateResourceInput where
  resourceUri : String
  name : String
  allowedScopes : List String
  mcpEnabled : Option Bool
  metadataClientPolicy : Option MetadataClientPolicy
  deriving DecidableEq, Repr

def CreateResourceInput.row (input : CreateResourceInput) : ResourceRow :=
  { resourceUri := input.resourceUri, name := input.name, allowedScopes := input.allowedScopes, enabled := true,
    mcpEnabled := input.mcpEnabled = some true, metadataClientPolicy := input.metadataClientPolicy.getD .disabled }

/-- A taken URI or a failed check aborts the insert. -/
def createResource (input : CreateResourceInput) : App Unit := do
  let inserted ← d1 fun db =>
    if (db.resources.get? input.resourceUri).isNone && resourceCheck input.row then
      (true, { db with resources := db.resources.insert input.row })
    else (false, db)
  require inserted .storage

/-- An absent field keeps its column. -/
structure ResourcePatch where
  name : Option String
  allowedScopes : Option (List String)
  enabled : Option Bool
  mcpEnabled : Option Bool
  metadataClientPolicy : Option MetadataClientPolicy
  deriving DecidableEq, Repr

def ResourcePatch.next (patch : ResourcePatch) (current : ResourceRow) : ResourceRow :=
  { current with
    name := patch.name.getD current.name
    allowedScopes := patch.allowedScopes.getD current.allowedScopes
    enabled := patch.enabled.getD current.enabled
    mcpEnabled := patch.mcpEnabled.getD current.mcpEnabled
    metadataClientPolicy := patch.metadataClientPolicy.getD current.metadataClientPolicy }

/-- The columns the update writes. -/
def resourceColumns (next r : ResourceRow) : ResourceRow :=
  { next with resourceUri := r.resourceUri }

theorem resourceColumns_resourceUri (next r : ResourceRow) : (resourceColumns next r).resourceUri = r.resourceUri := rfl

/-- The update of a resource, with the trigger on the permission rules: the column `allowed_scopes_json`
is always written, so it fires whenever the row is there. -/
def updateResourceStatement (uri : String) (next : ResourceRow) (db : Database) : Database :=
  let resources := db.resources.update (fun r => r.resourceUri = uri) (resourceColumns next)
    (resourceColumns_resourceUri next)
  { db with
    resources
    permissionGroupRules := if (db.resources.get? uri).isSome then
        prunePermissionRulesAfterResourceScopeUpdate uri next.allowedScopes resources db.permissionGroupRules
      else db.permissionGroupRules }

def updateResource (uri : String) (patch : ResourcePatch) : App (Option ResourceRow) := do
  match ← getResourceByUri uri with
  | none => pure none
  | some current =>
    let next := patch.next current
    let updated ← d1 fun db =>
      if (db.resources.get? uri).isNone || resourceCheck next then (true, updateResourceStatement uri next db)
      else (false, db)
    require updated .storage
    pure (some next)

/-- The client without a deleted resource. -/
def withoutResource (resourceUri : String) (c : ClientRow) : ClientRow :=
  { c with
    allowedResources := c.allowedResources.filter (· ≠ resourceUri)
    defaultResource := if c.defaultResource = some resourceUri then none else c.defaultResource }

theorem withoutResource_clientId (resourceUri : String) (c : ClientRow) :
    (withoutResource resourceUri c).clientId = c.clientId := rfl

/-- The batch of `deleteResource` at `unixepoch()`, with the foreign key of the approvals and the
trigger on the permission rules that fire with the first statement. -/
def deleteResourceBatch (now : Nat) (resourceUri : String) (db : Database) : Database where
  users := db.users
  groups := db.groups
  userGroups := db.userGroups
  groupMembershipRequests := db.groupMembershipRequests
  permissionGroupRules := if (db.resources.get? resourceUri).isSome then
      prunePermissionRulesAfterResourceDelete resourceUri db.permissionGroupRules
    else db.permissionGroupRules
  passwordCredentials := db.passwordCredentials
  webauthnCredentials := db.webauthnCredentials
  sessions := db.sessions
  clients := db.clients.update
    (fun c => c.defaultResource = some resourceUri || c.allowedResources.contains resourceUri)
    (withoutResource resourceUri) (withoutResource_clientId resourceUri)
  resources := db.resources.delete fun r => r.resourceUri = resourceUri
  approvals := db.approvals.delete fun a => a.resourceUri = resourceUri
  consents := db.consents.delete fun c => c.resource = resourceUri
  refreshTokens := db.refreshTokens.update (fun r => r.resource = resourceUri ∧ r.revokedAt = none)
    (fun r => { r with revokedAt := some now }) fun _ => rfl
  grants := db.grants.update (fun g => g.resource = resourceUri ∧ g.revokedAt = none)
    (fun g => { g with revokedAt := some now }) fun _ => rfl
  devices := db.devices.update
    (fun d => d.resourceUri = some resourceUri ∧ (d.status = .pending ∨ d.status = .approved))
    (fun d => { d with status := .denied }) fun _ => rfl
  emailVerifications := db.emailVerifications
  passwordResetTokens := db.passwordResetTokens
  reauthContinuations := db.reauthContinuations
  clientAssertionJtis := db.clientAssertionJtis
  operations := db.operations

/-- `unixepoch()` is the database's clock: the batch reads the time at which it runs. -/
def deleteResource (resourceUri : String) : App Bool := do
  let registered ← getResourceByUri resourceUri
  if registered.isNone then pure false
  else
    io fun w => ((w.db.resources.get? resourceUri).isSome, { w with
      db := deleteResourceBatch w.nowSeconds resourceUri w.db, log := .resourceDeleted resourceUri :: w.log })

/-! ## Consents -/

def getConsent (userId clientId resource : String) : App (Option ConsentRow) :=
  select fun db => db.consents.get? (userId, clientId, resource)

structure SaveConsentInput where
  userId : String
  clientId : String
  scope : String
  resource : String
  metadataFingerprint : Option String
  deriving DecidableEq, Repr

/-- `INSERT … ON CONFLICT (user_id, client_id, resource) DO UPDATE`: the row goes in, or `merged` gives
the scope and the fingerprint of the one that is there. Scopes that do not merge abort the statement. -/
def upsertConsent (row : ConsentRow) (merged : ConsentRow → Option (String × Option String))
    (consents : Table fun r : ConsentRow => (r.userId, r.clientId, r.resource)) :
    Option (Table fun r : ConsentRow => (r.userId, r.clientId, r.resource)) :=
  match consents.get? (row.userId, row.clientId, row.resource) with
  | none => some (consents.insert row)
  | some stored => (merged stored).map fun (scope, metadataFingerprint) =>
    consents.update (fun c => c.userId = row.userId ∧ c.clientId = row.clientId ∧ c.resource = row.resource)
      (fun c => { c with scope, metadataFingerprint, updatedAt := row.updatedAt }) fun _ => rfl

section

variable {row : ConsentRow} {merged : ConsentRow → Option (String × Option String)}
  {consents consents' : Table fun r : ConsentRow => (r.userId, r.clientId, r.resource)}

/-- The other consents stay. -/
theorem upsertConsent_other (h : upsertConsent row merged consents = some consents') {k : String × String × String}
    (hk : k ≠ (row.userId, row.clientId, row.resource)) : consents'.get? k = consents.get? k := by
  unfold upsertConsent at h
  split at h
  · rename_i hnone
    cases h
    rw [Table.get?_insert hnone, if_neg (Ne.symm hk)]
  · obtain ⟨_, -, rfl⟩ := Option.map_eq_some_iff.1 h
    rw [Table.get?_update]
    cases hget : consents.get? k with
    | none => rfl
    | some c =>
      rw [Option.map_some, if_neg]
      intro hp
      simp only [decide_eq_true_eq] at hp
      refine hk ?_
      rw [← (Table.get?_eq_some.1 hget).2, hp.1, hp.2.1, hp.2.2]

/-- The row that was not there, or what the one that was has become. -/
theorem upsertConsent_self (h : upsertConsent row merged consents = some consents') :
    (consents.get? (row.userId, row.clientId, row.resource) = none ∧
      consents'.get? (row.userId, row.clientId, row.resource) = some row) ∨
    ∃ stored scope metadataFingerprint, consents.get? (row.userId, row.clientId, row.resource) = some stored ∧
      merged stored = some (scope, metadataFingerprint) ∧
      consents'.get? (row.userId, row.clientId, row.resource) =
        some { stored with scope, metadataFingerprint, updatedAt := row.updatedAt } := by
  unfold upsertConsent at h
  split at h
  · rename_i hnone
    cases h
    exact Or.inl ⟨hnone, by rw [Table.get?_insert hnone, if_pos rfl]⟩
  · rename_i stored hstored
    obtain ⟨⟨scope, metadataFingerprint⟩, hmerged, rfl⟩ := Option.map_eq_some_iff.1 h
    refine Or.inr ⟨stored, scope, metadataFingerprint, hstored, hmerged, ?_⟩
    have hkey := (Table.get?_eq_some.1 hstored).2
    simp only [Prod.mk.injEq] at hkey
    rw [Table.get?_update, hstored, Option.map_some, if_pos (decide_eq_true hkey)]

end

/-- Scopes approved under the same fingerprint add up. -/
def saveConsentStatement (now : Nat) (id : String) (input : SaveConsentInput) (db : Database) : Option Database :=
  (upsertConsent
    { id, userId := input.userId, clientId := input.clientId, scope := input.scope, resource := input.resource,
      metadataFingerprint := input.metadataFingerprint, updatedAt := now }
    (fun stored =>
      if stored.metadataFingerprint = input.metadataFingerprint then
        (mergeScopes stored.scope input.scope).map fun scope => (scope, input.metadataFingerprint)
      else some (input.scope, input.metadataFingerprint))
    db.consents).map fun consents => { db with consents }

def saveConsent (id : String) (input : SaveConsentInput) : App Unit := do
  let now ← clock
  let saved ← d1Logged
    (fun db => if (saveConsentStatement now id input db).isSome then
      [.consentSaved input.userId input.clientId input.resource] else [])
    fun db => ((saveConsentStatement now id input db).isSome, (saveConsentStatement now id input db).getD db)
  require saved .storage

def deleteConsent (userId clientId : String) : App Bool :=
  d1Logged (fun _ => [.consentDeleted userId clientId]) fun db =>
    (db.consents.has fun c => c.userId = userId ∧ c.clientId = clientId,
      { db with consents := db.consents.delete fun c => c.userId = userId ∧ c.clientId = clientId })

/-! ## Device sessions -/

def getDeviceByDeviceCodeHash (hash : String) : App (Option DeviceRow) :=
  select fun db => db.devices.rows.find? (·.deviceCodeHash = hash)

/-- Atomically consume an approved session; false on a lost race. -/
def consumeApprovedDevice (id : String) : App Bool :=
  d1 fun db => ((db.devices.get? id).any (·.status = .approved), { db with
    devices := db.devices.update (fun d => d.id = id ∧ d.status = .approved)
      (fun d => { d with status := .consumed }) fun _ => rfl })

def markDeviceExpired (id : String) : App Unit :=
  d1 fun db => ((), { db with
    devices := db.devices.update (fun d => d.id = id ∧ (d.status = .pending ∨ d.status = .approved))
      (fun d => { d with status := .expired }) fun _ => rfl })

/-- `recordDevicePoll`; `slower` is what `recordDeviceSlowPoll` adds to every later interval. -/
def recordPoll (slower : Nat) (id : String) : App Unit := do
  let now ← clock
  d1 fun db => ((), { db with
    devices := db.devices.update (fun d => d.id = id)
      (fun d => { d with lastPolledAt := some now, pollIntervalSeconds := d.pollIntervalSeconds + slower })
      fun _ => rfl })

def recordDevicePoll (id : String) : App Unit := recordPoll 0 id

def recordDeviceSlowPoll (id : String) : App Unit := recordPoll 5 id

/-! ## Sessions -/

/-- Delete sessions; what refers to them is set to null, and continuations go with them. -/
def deleteSessions (ids : List String) (db : Database) : Database :=
  { db with
    sessions := db.sessions.delete fun s => ids.contains s.id
    refreshTokens := db.refreshTokens.update (fun r => r.sessionId.any ids.contains)
      (fun r => { r with sessionId := none }) fun _ => rfl
    grants := db.grants.update (fun g => g.sessionId.any ids.contains) (fun g => { g with sessionId := none }) fun _ => rfl
    devices := db.devices.update (fun d => d.sessionId.any ids.contains) (fun d => { d with sessionId := none }) fun _ => rfl
    reauthContinuations := db.reauthContinuations.delete fun c => ids.contains c.sessionId }

/-! ## Grants -/

structure AuthorizationGrantInput where
  userId : String
  clientId : String
  sessionId : Option String
  scope : String
  resource : String
  grantType : String
  deriving DecidableEq, Repr

def recordAuthorizationGrant (id : String) (input : AuthorizationGrantInput) : App Unit := do
  let now ← clock
  d1 fun db => ((), { db with
    grants := db.grants.insert
      { id, userId := input.userId, clientId := input.clientId, sessionId := input.sessionId, scope := input.scope,
        resource := input.resource, grantType := input.grantType, createdAt := now, revokedAt := none } })

def revokeAuthorizationGrantsByUserClient (userId clientId : String) : App Nat := do
  let now ← clock
  d1 fun db =>
    let p := fun g : AuthorizationGrantRow => g.userId = userId ∧ g.clientId = clientId ∧ g.revokedAt = none
    ((db.grants.select fun g => p g).length, { db with
      grants := db.grants.update (fun g => p g) (fun g => { g with revokedAt := some now }) fun _ => rfl })

end Keyforge.Db
