/-
The policy of a registered client (`oauth/client-config.ts`), with the checks on its redirect URIs
(`security/redirect-uri.ts`, `oauth/post-logout.ts`). The resources are what `listResources` returns.
-/
import Keyforge.Db.Administration
import Keyforge.OAuth.Scopes
import Keyforge.OAuth.Token

namespace Keyforge.OAuth

open Lib Db

/-! ## Redirect URIs -/

def isLoopback (hostname : String) : Bool :=
  hostname = "localhost" || hostname = "127.0.0.1" || hostname = "[::1]"

/-- `/^[a-z][a-z0-9+.-]{2,127}$/i`. -/
def isNativeScheme : List Char → Bool
  | [] => false
  | c :: rest => c.isAlpha && 2 ≤ rest.length && rest.length ≤ 127 &&
      rest.all fun c => c.isAlphanum || c = '+' || c = '.' || c = '-'

/-- OAuth redirect policy: HTTPS, loopback HTTP, or reverse-domain native schemes. -/
def isSafeOAuthRedirectUri (env : Env) (raw : String) : Bool :=
  match env.parseUrl raw with
  | none => false
  | some url =>
    if url.hash ≠ "" || url.username ≠ "" || url.password ≠ "" then false
    else if url.protocol = "https:" then url.hostname ≠ ""
    else if url.protocol = "http:" then isLoopback url.hostname
    else
      let scheme := url.protocol.toList.dropLast
      scheme.contains '.' && isNativeScheme scheme &&
        !(["javascript", "data", "file", "vbscript"].contains (String.ofList (scheme.map Char.toLower)))

/-- HTTPS, or HTTP for loopback development, without credentials and fragment. -/
def isSafePostLogoutRedirectUri (env : Env) (value : String) : Bool :=
  match env.parseUrl value with
  | none => false
  | some url =>
    if url.username ≠ "" || url.password ≠ "" || url.hash ≠ "" then false
    else if url.protocol = "https:" then true
    else url.protocol = "http:" && isLoopback url.hostname

/-! ## Client policy -/

def GRANT_TYPES : List String :=
  ["authorization_code", "refresh_token", DEVICE_CODE_GRANT, "client_credentials"]

/-- A client as one policy object. A missing `introspectionAllowed` is `undefined`. -/
structure ClientConfiguration where
  clientId : String
  name : String
  type : ClientType
  clientKind : ClientKind
  redirectUris : List String
  postLogoutRedirectUris : List String
  allowedScopes : List String
  allowedGrantTypes : List String
  allowedResources : List String
  defaultResource : Option String
  introspectionAllowed : Option Bool
  deriving DecidableEq, Repr

def hasDuplicates (values : List String) : Bool :=
  values.eraseDups.length ≠ values.length

/-- `/^[A-Za-z0-9][A-Za-z0-9._~-]{0,127}$/`. -/
def isClientIdText : List Char → Bool
  | [] => false
  | c :: rest => c.isAlphanum && rest.length ≤ 127 &&
      rest.all fun c => c.isAlphanum || c = '.' || c = '_' || c = '~' || c = '-'

/-- A confidential service that only introspects tokens: no scopes and no grants. -/
def introspectionOnly (config : ClientConfiguration) : Bool :=
  config.introspectionAllowed = some true && config.clientKind = .service && config.allowedScopes.isEmpty &&
    config.allowedGrantTypes.isEmpty

/-- Go on where the policy holds, else give the reason. -/
def demand (holds : Bool) (reason : String) : Except String Unit :=
  if holds then .ok () else .error reason

/-- What each kind of client must be. -/
def demandKind (config : ClientConfiguration) : Except String Unit :=
  match config.clientKind with
  | .application =>
    demand (config.allowedGrantTypes.contains "authorization_code" &&
        config.allowedGrantTypes.all (["authorization_code", "refresh_token"].contains ·) && !config.redirectUris.isEmpty)
      "application clients require authorization_code, redirects, and only optional refresh_token"
  | .device =>
    demand (config.allowedGrantTypes.contains DEVICE_CODE_GRANT &&
        config.allowedGrantTypes.all ([DEVICE_CODE_GRANT, "refresh_token"].contains ·) && config.redirectUris.isEmpty &&
        config.postLogoutRedirectUris.isEmpty)
      "device clients require device_code, no redirects, and only optional refresh_token"
  | .service =>
    if introspectionOnly config then
      demand (config.type = .confidential && config.redirectUris.isEmpty && config.postLogoutRedirectUris.isEmpty)
        "dedicated introspection clients must be confidential and have no redirects"
    else
      demand (config.type = .confidential && config.allowedGrantTypes.eraseDups.length = 1 &&
          config.allowedGrantTypes.contains "client_credentials" && config.redirectUris.isEmpty &&
          config.postLogoutRedirectUris.isEmpty && !config.allowedScopes.any USER_ONLY_SCOPES.contains)
        "service clients must be confidential, use only client_credentials, and exclude user scopes and redirects"

/-- Validate a client as one coherent, currently usable policy object. -/
def validateClientConfiguration (resources : List ResourceRow) (config : ClientConfiguration) : Except String Unit := do
  demand (isClientIdText config.clientId.toList) "client_id must be a URL-safe identifier of 1 to 128 characters"
  demand (trim config.name ≠ "" && utf16Length config.name ≤ 120) "name must contain 1 to 120 characters"
  let lists := [config.redirectUris, config.postLogoutRedirectUris, config.allowedScopes, config.allowedGrantTypes,
    config.allowedResources]
  demand (!lists.any hasDuplicates) "configuration lists must not contain duplicates"
  demand (introspectionOnly config || (validateScopeCatalog config.allowedScopes).isOk)
    "allowed_scopes is duplicated, malformed, or too large"
  demand (introspectionOnly config || (!config.allowedGrantTypes.isEmpty && config.allowedGrantTypes.all GRANT_TYPES.contains))
    "allowed_grant_types contains an unsupported grant"
  demand (!config.allowedResources.isEmpty) "at least one protected resource is required"
  demand (config.defaultResource.all config.allowedResources.contains) "default_resource must be one of allowed_resources"
  let selected := resources.filter fun resource => config.allowedResources.contains resource.resourceUri
  demand (selected.length = config.allowedResources.length && selected.all (·.enabled))
    "every allowed resource must be registered and enabled"
  let resourceScopes := selected.flatMap (·.allowedScopes)
  demand (!config.allowedScopes.any fun scope => isPermissionGroupControlledScope scope && !resourceScopes.contains scope)
    "one or more scopes are not offered by an allowed resource"
  demand (!(config.introspectionAllowed = some true && config.type ≠ .confidential))
    "token introspection requires a confidential client"
  demand (!(config.type = .publicClient && config.allowedGrantTypes.contains "client_credentials"))
    "public clients cannot use client_credentials"
  demand (!(config.allowedScopes.contains "offline_access" && !config.allowedGrantTypes.contains "refresh_token"))
    "offline_access requires the refresh_token grant"
  demandKind config

/-! ## Without the introspection flag -/

section

variable {resources : List ResourceRow} {config : ClientConfiguration}

theorem demand_bind_ok {holds : Bool} {reason : String} {next : Unit → Except String Unit} :
    (demand holds reason >>= next) = .ok () ↔ holds = true ∧ next () = .ok () := by
  cases holds with
  | false => exact ⟨fun h => (nomatch h), fun h => absurd h.1 Bool.false_ne_true⟩
  | true => exact ⟨fun h => ⟨rfl, h⟩, And.right⟩

/-- The flag matters to dedicated introspection clients only. -/
theorem validate_withoutFlag (h : validateClientConfiguration resources config = .ok ())
    (hnot : introspectionOnly config = false) :
    validateClientConfiguration resources { config with introspectionAllowed := none } = .ok () := by
  have hkind : demandKind { config with introspectionAllowed := none } = demandKind config := by
    obtain ⟨_, _, _, kind, _, _, _, _, _, _, _⟩ := config
    cases kind with
    | application => rfl
    | device => rfl
    | service => exact (if_neg (hnot ▸ Bool.false_ne_true)).symm
  have hnone : introspectionOnly { config with introspectionAllowed := none } = false := rfl
  simp only [validateClientConfiguration, demand_bind_ok, hnot, hkind, hnone, Bool.false_or] at h ⊢
  obtain ⟨hid, hname, hlists, hscopes, hgrants, hresources, hdefault, hregistered, hoffered, -, hpublic, hoffline, hpolicy⟩ := h
  exact ⟨hid, hname, hlists, hscopes, hgrants, hresources, hdefault, hregistered, hoffered, by simp, hpublic, hoffline, hpolicy⟩

/-- A dedicated introspection client is refused without its flag. -/
theorem validate_withoutFlag_introspectionOnly (honly : introspectionOnly config = true) :
    validateClientConfiguration resources { config with introspectionAllowed := none } ≠ .ok () := by
  intro h
  have hnone : introspectionOnly { config with introspectionAllowed := none } = false := rfl
  simp only [validateClientConfiguration, demand_bind_ok, hnone, Bool.false_or] at h
  obtain ⟨-, -, -, -, hgrants, -⟩ := h
  simp only [introspectionOnly, Bool.and_eq_true] at honly
  rw [honly.2] at hgrants
  exact Bool.false_ne_true hgrants

/-! ## Texts that the policy admits -/

theorem range_of_isAlphanum {c : Char} (h : c.isAlphanum = true) : 0x30 ≤ c.toNat ∧ c.toNat ≤ 0x7A := by
  change ((decide (65 ≤ c.val ∧ c.val ≤ 90) || (decide (97 ≤ c.val) && decide (c.val ≤ 122))) ||
    (decide (48 ≤ c.val) && decide (c.val ≤ 57))) = true at h
  simp only [Bool.or_eq_true, decide_eq_true_eq, Bool.and_eq_true, UInt32.le_iff_toNat_le] at h
  show 0x30 ≤ c.val.toNat ∧ c.val.toNat ≤ 0x7A
  rcases h with (⟨hlow, hhigh⟩ | ⟨hlow, hhigh⟩) | ⟨hlow, hhigh⟩
  · exact ⟨Nat.le_trans (by decide) hlow, Nat.le_trans hhigh (by decide)⟩
  · exact ⟨Nat.le_trans (by decide) hlow, Nat.le_trans hhigh (by decide)⟩
  · exact ⟨Nat.le_trans (by decide) hlow, Nat.le_trans hhigh (by decide)⟩

/-- An identifier that the policy admits holds no white space. -/
theorem trim_of_isClientIdText {text : String} (h : isClientIdText text.toList = true) : trim text = text := by
  have hplain : ∀ c ∈ text.toList, isWhiteSpace c = false := by
    intro c hc
    have hrange : 0x21 ≤ c.toNat ∧ c.toNat ≤ 0x7E := by
      cases htext : text.toList with
      | nil => exact absurd (htext ▸ hc) List.not_mem_nil
      | cons first rest =>
        rw [htext] at h hc
        simp only [isClientIdText, Bool.and_eq_true, List.all_eq_true, Bool.or_eq_true, decide_eq_true_eq] at h
        obtain ⟨⟨hfirst, -⟩, hrest⟩ := h
        have hor : c.isAlphanum = true ∨ c = '.' ∨ c = '_' ∨ c = '~' ∨ c = '-' := by
          rcases List.mem_cons.1 hc with rfl | hc
          · exact Or.inl hfirst
          · simpa only [or_assoc] using hrest c hc
        rcases hor with halnum | rfl | rfl | rfl | rfl
        · have := range_of_isAlphanum halnum
          omega
        all_goals decide
    simp only [isWhiteSpace, Bool.or_eq_false_iff, List.contains_eq_mem, decide_eq_false_iff_not, List.mem_cons,
      List.not_mem_nil, or_false, Bool.and_eq_false_iff]
    omega
  show String.ofList (trimText text.toList) = text
  rw [trimText_eq_self hplain, String.ofList_toList]

/-- A client that is admitted has an identifier without white space, its default among its resources, and,
unless it is a dedicated introspection client, scope words and known grants. -/
theorem texts_of_validate (h : validateClientConfiguration resources config = .ok ()) :
    isClientIdText config.clientId.toList = true ∧ (config.defaultResource.all config.allowedResources.contains) = true ∧
      (introspectionOnly config = false → (validateScopeCatalog config.allowedScopes).isOk = true ∧
        config.allowedGrantTypes.all GRANT_TYPES.contains = true) := by
  simp only [validateClientConfiguration, demand_bind_ok] at h
  obtain ⟨hid, -, -, hscopes, hgrants, -, hdefault, -⟩ := h
  refine ⟨hid, hdefault, fun hnot => ?_⟩
  rw [hnot, Bool.false_or] at hscopes hgrants
  exact ⟨hscopes, (Bool.and_eq_true _ _ ▸ hgrants).2⟩

end

end Keyforge.OAuth
