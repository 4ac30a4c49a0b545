/-
The gates every token passes: the audience (`oauth/resources.ts`) and the consent
(`oauth/consent.ts`). Both only read.
-/
import Keyforge.Db.Queries
import Keyforge.Env

namespace Keyforge.OAuth

open Lib Db

/-! ## Consent -/

/-- Whether the stored consent, if any, covers the scopes under the client's fingerprint. -/
def consentCovers (scopes : List String) (metadataFingerprint : Option String) (consent : Option ConsentRow) : Bool :=
  consent.any fun c =>
    c.metadataFingerprint = metadataFingerprint && scopes.all fun s => (parseScopeString c.scope).contains s

def consentCoversScopes (env : Env) (userId clientId resource : String) (requestedScopes : List String)
    (metadataFingerprint : Option String) : App Bool :=
  if env.yolo then pure true
  else do
    let consent ← getConsent userId clientId resource
    pure (consentCovers requestedScopes metadataFingerprint consent)

/-! ## Audience -/

/-- A metadata client needs an MCP resource whose policy admits it. -/
def admits (registered : ResourceRow) (approved : Bool) : Bool :=
  registered.mcpEnabled && registered.metadataClientPolicy ≠ .disabled &&
    (registered.metadataClientPolicy ≠ .adminApproved || approved)

/-- The access-token audience: the requested resource or the client's default, registered, enabled
and within the client's allowed resources. -/
def resolveResourceRecord (env : Env) (client : ClientRow) (requestedResource : Option String) : App ResourceRow := do
  match (requestedResource.or client.defaultResource).filter (· ≠ "") with
  | none => throw (.oauth .invalidTarget "No target resource specified"
      "request has no resource and client has no default_resource")
  | some resource =>
    require (env.yolo || client.allowedResources.contains resource)
      (.oauth .invalidTarget "The requested resource is not permitted"
        ("resource " ++ resource ++ " not in client allowed_resources"))
    let found ← getResourceByUri resource
    match found.filter (·.enabled) with
    | none =>
      -- YOLO mode synthesizes an unregistered resource
      if env.yolo then
        pure { resourceUri := resource, name := (found.map (·.name)).getD resource,
               allowedScopes := (found.map (·.allowedScopes)).getD client.allowedScopes,
               enabled := true, mcpEnabled := (found.map (·.mcpEnabled)).getD false,
               metadataClientPolicy := (found.map (·.metadataClientPolicy)).getD .disabled }
      else throw (.oauth .invalidTarget "Unknown or disabled resource"
        ("resource " ++ resource ++ " not registered or disabled"))
    | some registered =>
      require (!registered.mcpEnabled || env.isMcpResourceUriAllowed registered.resourceUri)
        (.oauth .invalidTarget "The requested resource is not available in this environment"
          ("resource " ++ resource ++ " violates the " ++ env.environment ++ " transport policy"))
      require (env.yolo || !registered.mcpEnabled || requestedResource.isSome)
        (.oauth .invalidTarget "The resource parameter is required for this protected resource"
          ("MCP resource " ++ resource ++ " was selected only through client default_resource"))
      if !env.yolo && client.registrationType = .clientIdMetadata then
        let approved ← if registered.metadataClientPolicy = .adminApproved then
            isMetadataClientApproved client.clientId registered.resourceUri
          else pure false
        require (admits registered approved)
          (.oauth .invalidTarget "The requested resource does not admit this client"
            ("metadata client " ++ client.clientId ++ " is not admitted to resource " ++ resource))
        pure registered
      else pure registered

def resolveResource (env : Env) (client : ClientRow) (requestedResource : Option String) : App String := do
  let registered ← resolveResourceRecord env client requestedResource
  pure registered.resourceUri

/-- The audience with the complete scope policy: a scope is grantable only when both the client and
the resource currently allow it. -/
def resolveResourceForScopes (env : Env) (client : ClientRow) (requestedResource : Option String)
    (requestedScopes : List String) : App String := do
  let registered ← resolveResourceRecord env client requestedResource
  let resource := registered.resourceUri
  if env.yolo then pure resource
  else
    let _ ← validateRequestedScopes requestedScopes client.allowedScopes
    let resourceSpecificScopes := requestedScopes.filter isPermissionGroupControlledScope
    let _ ← tryCatch (validateRequestedScopes resourceSpecificScopes registered.allowedScopes) fun error =>
      match error with
      | .oauth .invalidScope _ _ => throw (.oauth .invalidScope
          "One or more requested scopes are not permitted for this resource"
          ("resource " ++ resource ++ " does not allow every requested scope"))
      | error => throw error
    pure resource

end Keyforge.OAuth
