/-
The client of an authorization request: how its identifier is resolved (`resolveAuthorizationClient` of
`oauth/client-id-metadata.ts`) and which redirect URIs are its own (`oauth/redirect.ts`). What fetching a
metadata document gives is an argument: any metadata, or none if the document is not accepted.
-/
import Keyforge.Db.Queries
import Keyforge.OAuth.RequestLimits

namespace Keyforge.OAuth

open Lib Db

/-! ## Resolution -/

def RESOURCE_AUTHORIZED_SCOPES : List String :=
  USER_ONLY_SCOPES

/-- `fetchedAt` is the history of the document: when it was fetched. -/
structure ClientIdMetadata where
  clientName : String
  redirectUris : List String
  allowedGrantTypes : List String
  tokenEndpointAuthMethods : List TokenEndpointAuthMethod
  jwksUri : Option String
  fingerprint : String
  expiresAt : Nat
  fetchedAt : Option Nat
  deriving DecidableEq, Repr

/-- `fetched` is what the network and the checks of the document come to. -/
def fetchClientIdMetadata (env : Env) (fetched : Option ClientIdMetadata) (clientId : String) : App ClientIdMetadata := do
  require (parseClientIdentifierUrl env clientId).isSome (.clientIdMetadata "Invalid Client Identifier URL")
  match ← query fun w => fetched.map fun metadata => { metadata with fetchedAt := some w.nowMs } with
  | none => throw (.clientIdMetadata "Client metadata document was not accepted")
  | some metadata => pure metadata

/-- The metadata stored with the client, while it is fresh. -/
def storedMetadata (now : Nat) (current : Option ClientRow) : Option ClientIdMetadata := do
  let current ← current
  let fingerprint ← current.metadataFingerprint
  if current.metadataExpiresAt.getD 0 > now then
    some { clientName := current.name, redirectUris := current.redirectUris,
           allowedGrantTypes := current.allowedGrantTypes,
           tokenEndpointAuthMethods := current.tokenEndpointAuthMethods, jwksUri := current.metadataJwksUri, fingerprint,
           expiresAt := current.metadataExpiresAt.getD now, fetchedAt := current.metadataFetchedAt }
  else none

/-- The `try` block: stored metadata that is fresh is written back, other metadata is fetched. -/
def onboardMetadataClient (env : Env) (fetched : Option ClientIdMetadata) (clientId resourceUri : String)
    (allowedScopes : List String) (current : Option ClientRow) : App ClientRow := do
  let now ← clock
  let metadata ← match storedMetadata now current with
    | some metadata => pure metadata
    | none => fetchClientIdMetadata env fetched clientId
  upsertMetadataClient
    { clientId, name := metadata.clientName, redirectUris := metadata.redirectUris,
      allowedGrantTypes := metadata.allowedGrantTypes, tokenEndpointAuthMethods := metadata.tokenEndpointAuthMethods,
      metadataJwksUri := metadata.jwksUri, metadataFingerprint := metadata.fingerprint, resourceUri, allowedScopes,
      metadataExpiresAt := metadata.expiresAt, metadataFetchedAt := metadata.fetchedAt }

/-- The resource admits metadata clients. -/
def admitsMetadataClients (resource : ResourceRow) : Bool :=
  resource.enabled && resource.mcpEnabled && resource.metadataClientPolicy ≠ .disabled

/-- Resolve a static client, or safely onboard or refresh a metadata client. -/
def resolveAuthorizationClient (env : Env) (fetched : Option ClientIdMetadata) (clientId : String)
    (resourceUri : Option String) : App (Option ClientRow) := do
  let current ← getClientById clientId
  match current.filter (·.registrationType = .static), resourceUri with
  | some current, _ => pure (some current)
  | none, none => pure none
  | none, some resourceUri =>
    if (parseClientIdentifierUrl env clientId).isNone then pure none
    else
      let found ← getResourceByUri resourceUri
      match found.filter admitsMetadataClients with
      | none => pure none
      | some resource =>
        let allowedScopes := (resource.allowedScopes ++ RESOURCE_AUTHORIZED_SCOPES).eraseDups
        let resolved ← tryCatch (onboardMetadataClient env fetched clientId resourceUri allowedScopes current)
          fun error => match error with
            | .clientIdMetadata message => throw (.clientIdMetadata message)
            | _ => throw (.clientIdMetadata "Client metadata could not be persisted")
        if resource.metadataClientPolicy = .adminApproved then
          let approved ← isMetadataClientApproved clientId resourceUri
          pure (if approved then some resolved else none)
        else pure (some resolved)

/-! ## Redirect URIs -/

def isLoopbackIpRedirectUri (env : Env) (raw : String) : Option Url :=
  (env.parseUrl raw).filter fun url => url.protocol = "http:" && (url.hostname = "127.0.0.1" || url.hostname = "[::1]")

def matchesLoopbackRedirectExceptPort (env : Env) (registered presented : String) : Bool :=
  match isLoopbackIpRedirectUri env registered, isLoopbackIpRedirectUri env presented with
  | some registeredUrl, some presentedUrl =>
    registeredUrl.hostname = presentedUrl.hostname && registeredUrl.username = presentedUrl.username &&
      registeredUrl.password = presentedUrl.password && registeredUrl.pathname = presentedUrl.pathname &&
      registeredUrl.search = presentedUrl.search && registeredUrl.hash = presentedUrl.hash
  | _, _ => false

/-- Exact match, except that metadata clients may select an ephemeral port for an otherwise identical
loopback IP redirect URI (RFC 8252 §7.3). -/
def isRegisteredRedirectUri (env : Env) (client : ClientRow) (redirectUri : String) : Bool :=
  client.redirectUris.contains redirectUri || (client.registrationType = .clientIdMetadata &&
    client.redirectUris.any fun registered => matchesLoopbackRedirectExceptPort env registered redirectUri)

/-- The presented URI is on a loopback IP and is the registered one in everything but the port. -/
def LoopbackTwin (env : Env) (registered presented : String) : Prop :=
  ∃ url port, env.parseUrl presented = some url ∧ env.parseUrl registered = some { url with port } ∧
    url.protocol = "http:" ∧ (url.hostname = "127.0.0.1" ∨ url.hostname = "[::1]")

theorem matchesLoopbackRedirectExceptPort_iff {env : Env} {registered presented : String} :
    matchesLoopbackRedirectExceptPort env registered presented = true ↔ LoopbackTwin env registered presented := by
  have hloopback : ∀ {raw url}, isLoopbackIpRedirectUri env raw = some url ↔ env.parseUrl raw = some url ∧
      url.protocol = "http:" ∧ (url.hostname = "127.0.0.1" ∨ url.hostname = "[::1]") := by
    intro raw url
    simp [isLoopbackIpRedirectUri, Option.filter_eq_some_iff]
  unfold matchesLoopbackRedirectExceptPort
  constructor
  · intro h
    split at h
    · rename_i r p hr hp
      obtain ⟨hr, hscheme, -⟩ := hloopback.1 hr
      obtain ⟨hp, hscheme', hhost⟩ := hloopback.1 hp
      simp only [Bool.and_eq_true, decide_eq_true_eq] at h
      obtain ⟨⟨⟨⟨⟨h1, h2⟩, h3⟩, h4⟩, h5⟩, h6⟩ := h
      refine ⟨p, r.port, hp, hr.trans ?_, hscheme', hhost⟩
      cases r
      cases p
      simp_all
    · cases h
  · rintro ⟨url, port, hp, hr, hscheme, hhost⟩
    rw [hloopback.2 ⟨hr, hscheme, hhost⟩, hloopback.2 ⟨hp, hscheme, hhost⟩]
    simp

theorem isRegisteredRedirectUri_iff {env : Env} {client : ClientRow} {redirectUri : String} :
    isRegisteredRedirectUri env client redirectUri = true ↔ redirectUri ∈ client.redirectUris ∨
      (client.registrationType = .clientIdMetadata ∧ ∃ registered ∈ client.redirectUris,
        LoopbackTwin env registered redirectUri) := by
  simp [isRegisteredRedirectUri, matchesLoopbackRedirectExceptPort_iff]

end Keyforge.OAuth
