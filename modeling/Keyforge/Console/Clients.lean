/-
The console's client forms (`console/clients.ts`, `parseLines` of `console/shared.ts`, `updateClient` of
`db/queries/clients.ts`). A form shows a client's lists as lines of text; what is posted is split into
lines again, the client is rebuilt from it and validated, and the row is written. Posting a form
unchanged leaves the client as it was where its texts are lines, unless it is a dedicated introspection
client: the rebuilt client has no introspection flag, and without it such a client is refused.
The audit record of a change is left out.
-/
import Keyforge.Deployment
import Keyforge.OAuth.ClientConfig
import Mathlib.Data.Bool.AllAny
import Mathlib.Data.List.DropRight

namespace Keyforge.Console

open Lib Db OAuth

/-! ## Lines of text -/

def isLineBreak (c : Char) : Bool :=
  c = '\r' || c = '\n'

/-- `raw.split(/[\r\n]+/)`, trimmed. The pieces inside a run of line breaks are empty, and the filter drops
them. -/
def parseLines (raw : String) : List String :=
  ((raw.toList.splitOnP isLineBreak).map fun line => trim (String.ofList line)).filter (· ≠ "")

/-- `lines.join("\n")`. -/
def joinLines (lines : List String) : String :=
  String.ofList (['\n'].intercalate (lines.map String.toList))

/-- A text that reads back as one line. -/
structure IsLine (line : String) : Prop where
  nonempty : line ≠ ""
  trimmed : trim line = line
  unbroken : ∀ c ∈ line.toList, isLineBreak c = false

instance (line : String) : Decidable (IsLine line) :=
  decidable_of_iff (line ≠ "" ∧ trim line = line ∧ (line.toList.all fun c => isLineBreak c = false) = true)
    ⟨fun h => ⟨h.1, h.2.1, List.all_iff_forall_prop.1 h.2.2⟩, fun h => ⟨h.1, h.2, List.all_iff_forall_prop.2 h.3⟩⟩

/-- Every parsed line is one. -/
theorem isLine_of_mem_parseLines {raw line : String} (h : line ∈ parseLines raw) : IsLine line := by
  obtain ⟨hmem, hne⟩ := List.mem_filter.1 h
  obtain ⟨piece, hpiece, rfl⟩ := List.mem_map.1 hmem
  refine ⟨of_decide_eq_true hne, trim_trim _, fun c hc => ?_⟩
  exact splitOnP_pieces _ piece hpiece c (by simpa using mem_trim hc)

/-- Joined texts parse as they were exactly where each is a line. -/
theorem parse_joinLines_iff {lines : List String} : parseLines (joinLines lines) = lines ↔ ∀ line ∈ lines, IsLine line := by
  refine ⟨fun h line hline => ?_, fun h => ?_⟩
  · rw [← h] at hline
    exact isLine_of_mem_parseLines hline
  cases lines with
  | nil => decide
  | cons first rest =>
    have hunbroken : ∀ piece ∈ (first :: rest).map String.toList, ∀ c ∈ piece, isLineBreak c = false := by
      intro piece hpiece c hc
      obtain ⟨line, hline, rfl⟩ := List.mem_map.1 hpiece
      exact (h line hline).unbroken c hc
    have htrimmed : (first :: rest).map (fun line => trim (String.ofList line.toList)) = first :: rest := by
      refine (List.map_congr_left fun line hline => ?_).trans (List.map_id _)
      rw [String.ofList_toList, (h line hline).trimmed]
      rfl
    rw [parseLines, joinLines, String.toList_ofList, splitOnP_intercalate rfl hunbroken (List.cons_ne_nil _ _), List.map_map]
    exact (congrArg _ htrimmed).trans (List.filter_eq_self.2 fun line hline => decide_eq_true (h line hline).nonempty)

/-! ## Clients -/

/-- A row of `oauth_clients`, with the columns that only the console and introspection use. -/
structure OAuthClient extends ClientRow where
  postLogoutRedirectUris : List String
  requirePkce : Bool
  introspectionAllowed : Bool
  updatedAt : Nat
  deriving DecidableEq, Repr

/-- What the forms read and write. -/
structure ConsoleStore where
  clients : Table fun c : OAuthClient => c.clientId
  resources : Table ResourceRow.resourceUri

/-- The configuration that is stored, with its introspection flag. -/
def OAuthClient.configuration (client : OAuthClient) : ClientConfiguration where
  clientId := client.clientId
  name := client.name
  type := client.type
  clientKind := client.clientKind
  redirectUris := client.redirectUris
  postLogoutRedirectUris := client.postLogoutRedirectUris
  allowedScopes := client.allowedScopes
  allowedGrantTypes := client.allowedGrantTypes
  allowedResources := client.allowedResources
  defaultResource := client.defaultResource
  introspectionAllowed := some client.introspectionAllowed

/-- A missing field is `undefined` and keeps the column. -/
structure ClientPatch where
  name : Option String
  redirectUris : Option (List String)
  postLogoutRedirectUris : Option (List String)
  allowedScopes : Option (List String)
  allowedGrantTypes : Option (List String)
  allowedResources : Option (List String)
  defaultResource : Option (Option String)
  requirePkce : Option Bool
  introspectionAllowed : Option Bool

/-- The row after a patch of the row that was read. -/
def ClientPatch.apply (now : Nat) (patch : ClientPatch) (current row : OAuthClient) : OAuthClient :=
  { row with
    name := patch.name.getD current.name
    redirectUris := patch.redirectUris.getD current.redirectUris
    postLogoutRedirectUris := patch.postLogoutRedirectUris.getD current.postLogoutRedirectUris
    allowedScopes := patch.allowedScopes.getD current.allowedScopes
    allowedGrantTypes := patch.allowedGrantTypes.getD current.allowedGrantTypes
    allowedResources := patch.allowedResources.getD current.allowedResources
    defaultResource := patch.defaultResource.getD current.defaultResource
    requirePkce := true
    introspectionAllowed := patch.introspectionAllowed.getD current.introspectionAllowed
    updatedAt := now }

theorem ClientPatch.apply_clientId {now : Nat} {patch : ClientPatch} {current : OAuthClient} (row : OAuthClient) :
    (patch.apply now current row).clientId = row.clientId := rfl

def updateClient (now : Nat) (id : String) (patch : ClientPatch) (store : ConsoleStore) : Bool × ConsoleStore :=
  match store.clients.get? id with
  | none => (false, store)
  | some current =>
    (true, { store with clients := store.clients.update (·.clientId = id) (patch.apply now current) ClientPatch.apply_clientId })

/-! ## Forms -/

inductive FormEntry where
  | text (value : String)
  | file
  deriving DecidableEq, Repr

abbrev FormData := List (String × FormEntry)

/-- The first entry of a name, if it is a text. -/
def readFormField (form : FormData) (name : String) : String :=
  match form.lookup name with
  | some (.text value) => value
  | _ => ""

/-- All texts of a name (`form.getAll`). -/
def readFormTexts (form : FormData) (name : String) : List String :=
  form.filterMap fun entry => if entry.1 = name then (match entry.2 with | .text value => some value | .file => none) else none

structure ClientFormValues where
  clientId : String
  name : String
  type : ClientType
  clientKind : ClientKind
  redirectUris : String
  postLogoutRedirectUris : String
  allowedScopes : String
  allowedGrantTypes : String
  allowedResources : String
  defaultResource : String
  deriving DecidableEq, Repr

def clientValues (client : OAuthClient) : ClientFormValues where
  clientId := client.clientId
  name := client.name
  type := client.type
  clientKind := client.clientKind
  redirectUris := joinLines client.redirectUris
  postLogoutRedirectUris := joinLines client.postLogoutRedirectUris
  allowedScopes := joinLines client.allowedScopes
  allowedGrantTypes := joinLines client.allowedGrantTypes
  allowedResources := joinLines client.allowedResources
  defaultResource := client.defaultResource.getD ""

/-- `text.trim() || null`. -/
def trimOrNull (text : String) : Option String :=
  if trim text = "" then none else some (trim text)

/-- The client that a form describes; it has no introspection flag. -/
def clientConfiguration (values : ClientFormValues) : ClientConfiguration where
  clientId := trim values.clientId
  name := trim values.name
  type := values.type
  clientKind := values.clientKind
  redirectUris := parseLines values.redirectUris
  postLogoutRedirectUris := parseLines values.postLogoutRedirectUris
  allowedScopes := parseLines values.allowedScopes
  allowedGrantTypes := parseLines values.allowedGrantTypes
  allowedResources := parseLines values.allowedResources
  defaultResource := trimOrNull values.defaultResource
  introspectionAllowed := none

/-- `{ ...configuration, requirePkce: true }`. -/
def configurationPatch (configuration : ClientConfiguration) : ClientPatch where
  name := some configuration.name
  redirectUris := some configuration.redirectUris
  postLogoutRedirectUris := some configuration.postLogoutRedirectUris
  allowedScopes := some configuration.allowedScopes
  allowedGrantTypes := some configuration.allowedGrantTypes
  allowedResources := some configuration.allowedResources
  defaultResource := some configuration.defaultResource
  requirePkce := some true
  introspectionAllowed := configuration.introspectionAllowed

/-! ## What is wrong with a configuration -/

inductive ClientFormField where
  | clientId
  | name
  | redirectUris
  | postLogoutRedirectUris
  | allowedScopes
  | allowedGrantTypes
  | allowedResources
  | defaultResource
  deriving DecidableEq, Repr

structure ClientFormIssue where
  error : String
  field : Option ClientFormField
  initialStep : Nat
  deriving DecidableEq, Repr

/-- A message with its parameters, in the reader's language. -/
abbrev Translate := String → List (String × String) → String

/-- `text.includes(part)`. -/
def includes (text part : String) : Bool :=
  text.toList.tails.any (part.toList.isPrefixOf ·)

/-- The field that a reason is shown at. -/
def issueField (reason : String) : Option ClientFormField :=
  if "client_id".toList.isPrefixOf reason.toList then some .clientId
  else if "name".toList.isPrefixOf reason.toList then some .name
  else if includes reason "allowed_scopes" || includes reason "scopes" then some .allowedScopes
  else if includes reason "allowed_grant_types" || includes reason "grant" then some .allowedGrantTypes
  else if includes reason "default_resource" then some .defaultResource
  else if includes reason "resource" then some .allowedResources
  else none

def clientConfigurationError (env : Env) (t : Translate) (resources : List ResourceRow) (configuration : ClientConfiguration) :
    Option ClientFormIssue :=
  if !configuration.redirectUris.all (isSafeOAuthRedirectUri env) then
    some ⟨t "Redirect URIs must use HTTPS, loopback HTTP, or a reverse-domain native scheme, without credentials or fragments." [],
      some .redirectUris, 1⟩
  else if !configuration.postLogoutRedirectUris.all (isSafePostLogoutRedirectUri env) then
    some ⟨t "Post-logout redirect URIs must use HTTPS or loopback HTTP, without credentials or fragments." [],
      some .postLogoutRedirectUris, 1⟩
  else match validateClientConfiguration resources configuration with
    | .ok () => none
    | .error reason =>
      let field := issueField reason
      some ⟨t "Configuration error: \x7breason\x7d." [("reason", t reason [])], field,
        if field = some .clientId || field = some .name then 0 else if field = none then 3 else 2⟩

theorem clientConfigurationError_eq_none {env : Env} {t : Translate} {resources : List ResourceRow}
    {configuration : ClientConfiguration} : clientConfigurationError env t resources configuration = none ↔
      configuration.redirectUris.all (isSafeOAuthRedirectUri env) = true ∧
        configuration.postLogoutRedirectUris.all (isSafePostLogoutRedirectUri env) = true ∧
        validateClientConfiguration resources configuration = .ok () := by
  unfold clientConfigurationError
  cases configuration.redirectUris.all (isSafeOAuthRedirectUri env) with
  | false => simp
  | true =>
    cases configuration.postLogoutRedirectUris.all (isSafePostLogoutRedirectUri env) with
    | false => simp
    | true => cases validateClientConfiguration resources configuration <;> simp

/-! ## Posting a form -/

/-- The two forms of a client's page. -/
inductive ClientForm where
  | settings
  | access
  deriving DecidableEq, Repr

/-- Where the console answers to: its list of clients, or a client's page, with the draft that is cleared. -/
inductive ConsoleLocation where
  | clients (flash : String)
  | client (id : String) (view : ClientForm) (flash : Option String) (cleared : Option ClientForm)
  deriving DecidableEq, Repr

/-- A redirect, or the form once more with what is wrong (status 400). -/
inductive ConsoleResponse where
  | redirect (location : ConsoleLocation)
  | detailError (client : OAuthClient) (view : ClientForm) (values : ClientFormValues) (issue : ClientFormIssue)
  deriving DecidableEq, Repr

/-- What a request gives: the form's CSRF check, the translations, and the time. -/
structure ConsoleContext where
  env : Env
  verifyCsrfToken : Option String → Bool
  t : Translate
  now : Nat

/-- The form, if its token verifies. -/
def readVerifiedForm (c : ConsoleContext) (form : FormData) : Option FormData :=
  let token := readFormField form "csrf_token"
  if c.verifyCsrfToken (if token = "" then none else some token) then some form else none

/-- The values of the settings form over the stored ones. -/
def settingsValues (form : FormData) (stored : ClientFormValues) : ClientFormValues :=
  { stored with
    name := readFormField form "name"
    redirectUris := readFormField form "redirect_uris"
    postLogoutRedirectUris := readFormField form "post_logout_redirect_uris" }

/-- The values of the access form over the stored ones. The resources are check boxes. -/
def accessValues (form : FormData) (stored : ClientFormValues) : ClientFormValues :=
  { stored with
    allowedScopes := readFormField form "allowed_scopes"
    allowedGrantTypes := readFormField form "allowed_grant_types"
    allowedResources := joinLines (readFormTexts form "allowed_resources")
    defaultResource := readFormField form "default_resource" }

/-- The handler of both forms; `overwrite` is what the form's fields replace. -/
def postClientForm (view : ClientForm) (overwrite : FormData → ClientFormValues → ClientFormValues) (c : ConsoleContext)
    (id : String) (posted : FormData) (store : ConsoleStore) : ConsoleResponse × ConsoleStore :=
  match readVerifiedForm c posted with
  | none => (.redirect (.client id view (some "invalid") none), store)
  | some form =>
    match store.clients.get? id with
    | none => (.redirect (.clients "not_found"), store)
    | some current =>
      if current.registrationType = .clientIdMetadata then (.redirect (.client id view none none), store)
      else
        let values := overwrite form (clientValues current)
        let configuration := clientConfiguration values
        match clientConfigurationError c.env c.t store.resources.rows configuration with
        | some issue => (.detailError current view values issue, store)
        | none =>
          match updateClient c.now id (configurationPatch configuration) store with
          | (false, store) => (.redirect (.clients "not_found"), store)
          | (true, store) => (.redirect (.client id view (some "client_updated") (some view)), store)

/-- `POST /console/clients/:id/settings`. -/
def postSettings : ConsoleContext → String → FormData → ConsoleStore → ConsoleResponse × ConsoleStore :=
  postClientForm .settings settingsValues

/-- `POST /console/clients/:id/access`. -/
def postAccess : ConsoleContext → String → FormData → ConsoleStore → ConsoleResponse × ConsoleStore :=
  postClientForm .access accessValues

def ClientForm.post : ClientForm → ConsoleContext → String → FormData → ConsoleStore → ConsoleResponse × ConsoleStore
  | .settings => postSettings
  | .access => postAccess

/-! ## Posting a form unchanged -/

/-- The posted form has a token that verifies, and its fields are these values. -/
def ClientForm.Submits (c : ConsoleContext) (posted : FormData) (values : ClientFormValues) : ClientForm → Prop
  | .settings => readVerifiedForm c posted = some posted ∧ readFormField posted "name" = values.name ∧
      readFormField posted "redirect_uris" = values.redirectUris ∧
      readFormField posted "post_logout_redirect_uris" = values.postLogoutRedirectUris
  | .access => readVerifiedForm c posted = some posted ∧ readFormField posted "allowed_scopes" = values.allowedScopes ∧
      readFormField posted "allowed_grant_types" = values.allowedGrantTypes ∧
      joinLines (readFormTexts posted "allowed_resources") = values.allowedResources ∧
      readFormField posted "default_resource" = values.defaultResource

/-- The post is accepted, and the client is as it was but for `require_pkce` and `updated_at`. -/
structure Saves (c : ConsoleContext) (view : ClientForm) (client : OAuthClient) (outcome : ConsoleResponse × ConsoleStore) :
    Prop where
  accepted : outcome.1 = .redirect (.client client.clientId view (some "client_updated") (some view))
  unchanged : outcome.2.clients.get? client.clientId = some { client with requirePkce := true, updatedAt := c.now }

/-- The client is no dedicated introspection client, and its texts are lines. -/
structure Savable (client : OAuthClient) : Prop where
  notDedicated : introspectionOnly client.configuration = false
  name : trim client.name = client.name
  redirectUris : ∀ uri ∈ client.redirectUris, IsLine uri
  postLogoutRedirectUris : ∀ uri ∈ client.postLogoutRedirectUris, IsLine uri
  allowedResources : ∀ uri ∈ client.allowedResources, IsLine uri

section

variable {c : ConsoleContext} {view : ClientForm} {client : OAuthClient} {posted : FormData} {store : ConsoleStore}

/-- Either form, posted unchanged, rebuilds the client from its own values. -/
theorem post_unchanged (hget : store.clients.get? client.clientId = some client) (hstatic : client.registrationType = .static)
    (hposted : view.Submits c posted (clientValues client)) {configuration : ClientConfiguration}
    (hconfiguration : clientConfiguration (clientValues client) = configuration) :
    view.post c client.clientId posted store =
      match clientConfigurationError c.env c.t store.resources.rows configuration with
      | some issue => (.detailError client view (clientValues client) issue, store)
      | none => (.redirect (.client client.clientId view (some "client_updated") (some view)),
          (updateClient c.now client.clientId (configurationPatch configuration) store).2) := by
  have hupdate : updateClient c.now client.clientId (configurationPatch configuration) store =
      (true, (updateClient c.now client.clientId (configurationPatch configuration) store).2) := by
    rw [updateClient, hget]
  have hpost : ∀ overwrite, readVerifiedForm c posted = some posted → overwrite posted (clientValues client) = clientValues client →
      postClientForm view overwrite c client.clientId posted store =
        match clientConfigurationError c.env c.t store.resources.rows configuration with
        | some issue => (.detailError client view (clientValues client) issue, store)
        | none => (.redirect (.client client.clientId view (some "client_updated") (some view)),
            (updateClient c.now client.clientId (configurationPatch configuration) store).2) := by
    intro overwrite hverified hvalues
    have hmanaged : ¬client.registrationType = .clientIdMetadata := by rw [hstatic]; exact RegistrationType.noConfusion
    simp only [postClientForm, hverified, hget, if_neg hmanaged, hvalues, hconfiguration]
    cases clientConfigurationError c.env c.t store.resources.rows configuration with
    | some issue => rfl
    | none =>
      dsimp only
      rw [hupdate]
  cases view with
  | settings =>
    obtain ⟨hverified, hname, hredirect, hlogout⟩ := hposted
    refine hpost settingsValues hverified ?_
    rw [settingsValues, hname, hredirect, hlogout]
  | access =>
    obtain ⟨hverified, hscopes, hgrants, hresources, hdefault⟩ := hposted
    refine hpost accessValues hverified ?_
    rw [accessValues, hscopes, hgrants, hresources, hdefault]

/-- Words are lines. -/
theorem isLine_of_isWord {line : String} (h : IsWord line) : IsLine line := by
  refine ⟨h.1, ?_, fun c hc => ?_⟩
  · show String.ofList (trimText line.toList) = line
    rw [trimText_eq_self h.2, String.ofList_toList]
  · have := h.2 c hc
    by_contra hbreak
    simp only [isLineBreak, Bool.not_eq_false, Bool.or_eq_true, decide_eq_true_eq] at hbreak
    rcases hbreak with rfl | rfl <;> exact absurd this (by decide)

/-- The rebuilt client is the stored one without its introspection flag. -/
theorem clientConfiguration_clientValues (hvalid : validateClientConfiguration store.resources.rows client.configuration = .ok ())
    (h : Savable client) :
    clientConfiguration (clientValues client) = { client.configuration with introspectionAllowed := none } := by
  obtain ⟨hid, hdefault, htexts⟩ := texts_of_validate hvalid
  obtain ⟨hscopes, hgrants⟩ := htexts h.notDedicated
  have hscopeLines : ∀ scope ∈ client.allowedScopes, IsLine scope := by
    intro scope hscope
    cases hcatalog : validateScopeCatalog client.allowedScopes with
    | error issue =>
      have : (validateScopeCatalog client.allowedScopes).isOk = true := hscopes
      rw [hcatalog] at this
      exact absurd this Bool.false_ne_true
    | ok accepted => exact isLine_of_isWord (isWord_of_scopeToken (scopeToken_of_catalog hcatalog scope hscope))
  have hgrantLines : ∀ grant ∈ client.allowedGrantTypes, IsLine grant := by
    intro grant hgrant
    have hknown : ∀ grant ∈ GRANT_TYPES, IsLine grant := by decide
    exact hknown grant (List.contains_iff_mem.1 (List.all_eq_true.1 hgrants grant hgrant))
  have hdefaultLine : trimOrNull (client.defaultResource.getD "") = client.defaultResource := by
    cases hsome : client.defaultResource with
    | none => rfl
    | some uri =>
      have hmem : uri ∈ client.allowedResources := by
        have : client.configuration.defaultResource = some uri := hsome
        rw [this] at hdefault
        exact List.contains_iff_mem.1 hdefault
      have hline := h.allowedResources uri hmem
      rw [Option.getD_some, trimOrNull, hline.trimmed, if_neg hline.nonempty]
  simp only [clientConfiguration, clientValues, OAuthClient.configuration, parse_joinLines_iff.2 h.redirectUris,
    parse_joinLines_iff.2 h.postLogoutRedirectUris, parse_joinLines_iff.2 h.allowedResources,
    parse_joinLines_iff.2 hscopeLines, parse_joinLines_iff.2 hgrantLines, hdefaultLine, h.name,
    show trim client.clientId = client.clientId from trim_of_isClientIdText hid]

/-- A client whose every field is stored again is savable, if its policy holds without the flag. -/
theorem savable_of_stored (hvalid : validateClientConfiguration store.resources.rows client.configuration = .ok ())
    (haccepted : validateClientConfiguration store.resources.rows (clientConfiguration (clientValues client)) = .ok ())
    (hsame : (configurationPatch (clientConfiguration (clientValues client))).apply c.now client client =
      { client with requirePkce := true, updatedAt := c.now }) : Savable client := by
  have hid : trim client.clientId = client.clientId := trim_of_isClientIdText (texts_of_validate hvalid).1
  have hname : trim client.name = client.name := congrArg (fun row => row.name) hsame
  have hredirect : parseLines (joinLines client.redirectUris) = client.redirectUris :=
    congrArg (fun row => row.redirectUris) hsame
  have hlogout : parseLines (joinLines client.postLogoutRedirectUris) = client.postLogoutRedirectUris :=
    congrArg OAuthClient.postLogoutRedirectUris hsame
  have hscopes : parseLines (joinLines client.allowedScopes) = client.allowedScopes :=
    congrArg (fun row => row.allowedScopes) hsame
  have hgrants : parseLines (joinLines client.allowedGrantTypes) = client.allowedGrantTypes :=
    congrArg (fun row => row.allowedGrantTypes) hsame
  have hresources : parseLines (joinLines client.allowedResources) = client.allowedResources :=
    congrArg (fun row => row.allowedResources) hsame
  have hdefault : trimOrNull (client.defaultResource.getD "") = client.defaultResource :=
    congrArg (fun row => row.defaultResource) hsame
  have hrebuilt : clientConfiguration (clientValues client) = { client.configuration with introspectionAllowed := none } := by
    simp only [clientConfiguration, clientValues, OAuthClient.configuration, hid, hname, hredirect, hlogout, hscopes, hgrants,
      hresources, hdefault]
  refine ⟨?_, hname, parse_joinLines_iff.1 hredirect, parse_joinLines_iff.1 hlogout, parse_joinLines_iff.1 hresources⟩
  by_contra honly
  rw [Bool.not_eq_false] at honly
  exact validate_withoutFlag_introspectionOnly honly (hrebuilt ▸ haccepted)

/-- A form that is posted unchanged is accepted and changes nothing exactly where the client is savable. -/
theorem unchanged_saves_iff (hget : store.clients.get? client.clientId = some client) (hstatic : client.registrationType = .static)
    (hvalid : validateClientConfiguration store.resources.rows client.configuration = .ok ())
    (hredirect : client.redirectUris.all (isSafeOAuthRedirectUri c.env) = true)
    (hlogout : client.postLogoutRedirectUris.all (isSafePostLogoutRedirectUri c.env) = true)
    (hposted : view.Submits c posted (clientValues client)) :
    Saves c view client (view.post c client.clientId posted store) ↔ Savable client := by
  rw [post_unchanged hget hstatic hposted rfl]
  have hstored : ∀ patch : ClientPatch, (updateClient c.now client.clientId patch store).2.clients.get? client.clientId =
      some (patch.apply c.now client client) := by
    intro patch
    rw [updateClient, hget]
    refine (Table.get?_update (t := store.clients) ClientPatch.apply_clientId).trans ?_
    rw [hget, Option.map_some, if_pos (decide_eq_true rfl)]
  constructor
  · rintro ⟨haccepted, hunchanged⟩
    cases herror : clientConfigurationError c.env c.t store.resources.rows (clientConfiguration (clientValues client)) with
    | some issue => rw [herror] at haccepted; cases haccepted
    | none =>
      rw [herror, hstored] at hunchanged
      exact savable_of_stored hvalid (clientConfigurationError_eq_none.1 herror).2.2 (Option.some.inj hunchanged)
  · intro h
    have hrebuilt := clientConfiguration_clientValues hvalid h
    have herror : clientConfigurationError c.env c.t store.resources.rows (clientConfiguration (clientValues client)) = none := by
      rw [hrebuilt]
      exact clientConfigurationError_eq_none.2 ⟨hredirect, hlogout, validate_withoutFlag hvalid h.notDedicated⟩
    rw [herror]
    refine ⟨rfl, ?_⟩
    rw [hstored, hrebuilt]
    rfl

end

/-! ## Two clients -/

def exampleResource : ResourceRow :=
  { resourceUri := "https://mcp.example.com/mcp", name := "Example MCP", allowedScopes := ["mcp.read"], enabled := true,
    mcpEnabled := true, metadataClientPolicy := .disabled }

/-- An application with one redirect URI. -/
def exampleApplication : OAuthClient :=
  { clientId := "example_app", name := "Example app", type := .publicClient, clientKind := .application,
    redirectUris := ["https://app.example.com/callback"], allowedScopes := ["openid", "mcp.read"],
    allowedGrantTypes := ["authorization_code"], allowedResources := ["https://mcp.example.com/mcp"],
    defaultResource := some "https://mcp.example.com/mcp", tokenEndpointAuthMethods := [.none], enabled := true,
    registrationType := .static, metadataFingerprint := none, metadataExpiresAt := none, metadataJwksUri := none,
    metadataFetchedAt := none, postLogoutRedirectUris := [], requirePkce := true, introspectionAllowed := false,
    updatedAt := 1000 }

/-- The introspection credential of `docs/mcp.md`. -/
def exampleIntrospector : OAuthClient :=
  { exampleApplication with
    clientId := "example_mcp_introspector", name := "Example MCP introspector", type := .confidential,
    clientKind := .service, redirectUris := [], allowedScopes := [], allowedGrantTypes := [],
    tokenEndpointAuthMethods := [.clientSecretBasic, .clientSecretPost], introspectionAllowed := true }

def exampleStore : ConsoleStore where
  clients := ((∅ : Table fun c : OAuthClient => c.clientId).insert exampleApplication).insert exampleIntrospector
  resources := (∅ : Table ResourceRow.resourceUri).insert exampleResource

def exampleContext : ConsoleContext where
  env :=
    { Deployment.env with
      parseUrl := fun raw =>
        if raw = "https://app.example.com/callback" then
          some ⟨"https:", "", "", "app.example.com", "", "/callback", "", ""⟩
        else none }
  verifyCsrfToken := (· = some "token")
  t := fun text _ => text
  now := 2000

/-- The settings form of a client, as it is shown. -/
def shownSettings (client : OAuthClient) : FormData :=
  [("csrf_token", .text "token"), ("name", .text client.name), ("redirect_uris", .text (joinLines client.redirectUris)),
    ("post_logout_redirect_uris", .text (joinLines client.postLogoutRedirectUris))]

/-- The application's settings are saved. -/
theorem unchanged_saves_iff_application :
    Saves exampleContext .settings exampleApplication
      (ClientForm.settings.post exampleContext exampleApplication.clientId (shownSettings exampleApplication) exampleStore) := by
  have hposted : ClientForm.Submits exampleContext (shownSettings exampleApplication) (clientValues exampleApplication) .settings :=
    ⟨by decide +kernel, by decide +kernel, by decide +kernel, by decide +kernel⟩
  refine (unchanged_saves_iff (by decide +kernel) rfl (by decide +kernel) (by decide +kernel)
    (by decide +kernel) hposted).2 ?_
  exact ⟨by decide +kernel, by decide +kernel, by decide +kernel, by decide +kernel, by decide +kernel⟩

/-- The introspection credential is refused, though its stored configuration is valid. -/
theorem introspector_refused :
    exampleStore.clients.get? exampleIntrospector.clientId = some exampleIntrospector ∧
      exampleIntrospector.registrationType = .static ∧
      validateClientConfiguration exampleStore.resources.rows exampleIntrospector.configuration = .ok () ∧
      exampleIntrospector.redirectUris.all (isSafeOAuthRedirectUri exampleContext.env) = true ∧
      exampleIntrospector.postLogoutRedirectUris.all (isSafePostLogoutRedirectUri exampleContext.env) = true ∧
      ClientForm.Submits exampleContext (shownSettings exampleIntrospector) (clientValues exampleIntrospector) .settings ∧
      ¬Saves exampleContext .settings exampleIntrospector
        (ClientForm.settings.post exampleContext exampleIntrospector.clientId (shownSettings exampleIntrospector)
          exampleStore) := by
  refine ⟨by decide +kernel, rfl, by decide +kernel, by decide +kernel, by decide +kernel,
    ⟨by decide +kernel, by decide +kernel, by decide +kernel, by decide +kernel⟩, fun h => ?_⟩
  have hrefused : (ClientForm.settings.post exampleContext exampleIntrospector.clientId (shownSettings exampleIntrospector)
      exampleStore).1 ≠ .redirect (.client exampleIntrospector.clientId .settings (some "client_updated") (some .settings)) := by
    decide +kernel
  exact hrefused h.accepted

end Keyforge.Console
