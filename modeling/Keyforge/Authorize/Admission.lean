/-
What an authorization request has shown when it is answered by a redirect: that the URI is the client's
own. And what it has shown when it is accepted: that it is complete, and within what the client and the
resource allow. The database may change between the reads in any way.
-/
import Keyforge.OAuth.Authorize
import Keyforge.OAuth.Granted
import Keyforge.Deployment

namespace Keyforge.Authorize

open Lib Db OAuth Security

/-! ## The client -/

section

variable {env : Env} {fetched : Option ClientIdMetadata} {clientId : String}

theorem persistMetadataClient_ends {input : UpsertMetadataClientInput} :
    endsE (persistMetadataClient input) (fun client tr => Saw (fun db => db.clients.get? input.clientId = some client) tr)
      fun _ _ => True := by
  have hlasting := lasting_saw fun client db => db.clients.get? input.clientId = some (client : ClientRow)
  have htrue : ∀ (x : Failure) (tr : Steps), (fun _ _ => True) x tr := fun _ _ => trivial
  unfold persistMetadataClient
  refine endsE_skip hlasting htrue fun now => endsE_skip hlasting htrue fun _ => endsE_skip hlasting htrue fun current => ?_
  split
  · trivial
  · refine endsE_skip hlasting htrue fun _ => ?_
    rw [endsE_bind]
    refine endsE_select (fun w dt => ?_) fun _ => trivial
    cases hget : w.db.clients.get? input.clientId with
    | none => trivial
    | some client => exact .left (.head (φ := fun db => db.clients.get? input.clientId = some client) hget)

/-- The client resolved is the one stored under the identifier when the last of its reads was made. -/
theorem resolveAuthorizationClient_ends {resourceUri : Option String} :
    endsE (resolveAuthorizationClient env fetched clientId resourceUri)
      (fun found tr => ∀ client ∈ found, Saw (fun db => db.clients.get? clientId = some client) tr) fun _ _ => True := by
  have hlasting : Lasting fun (found : Option ClientRow) (tr : Steps) =>
      ∀ client ∈ found, Saw (fun db => db.clients.get? clientId = some client) tr :=
    fun _ _ _ hsub h client hclient => (h client hclient).sublist hsub
  have htrue : ∀ (x : Failure) (tr : Steps), (fun _ _ => True) x tr := fun _ _ => trivial
  have hstored := lasting_saw fun client db => db.clients.get? clientId = some (client : ClientRow)
  -- whatever is written is read again at the end
  have hupsert : ∀ input : UpsertMetadataClientInput, input.clientId = clientId → endsE (upsertMetadataClient input)
      (fun client tr => Saw (fun db => db.clients.get? clientId = some client) tr) fun _ _ => True := by
    rintro input rfl
    unfold upsertMetadataClient
    refine endsE_skip hstored htrue fun existing => endsE_skip hstored htrue fun _ => endsE_ite (fun _ => ?_) fun _ => ?_
    · exact endsE_skip hstored htrue fun count => endsE_skip hstored htrue fun _ => persistMetadataClient_ends
    · exact persistMetadataClient_ends
  -- and onboarding ends in such a write
  have honboard : ∀ uri allowedScopes current, endsE (onboardMetadataClient env fetched clientId uri allowedScopes current)
      (fun client tr => Saw (fun db => db.clients.get? clientId = some client) tr) fun _ _ => True := by
    intro uri allowedScopes current
    unfold onboardMetadataClient
    refine endsE_skip hstored htrue fun now => ?_
    split
    · exact endsE_skip hstored htrue fun metadata => hupsert _ rfl
    · exact endsE_skip hstored htrue fun metadata => hupsert _ rfl
  unfold resolveAuthorizationClient
  rw [endsE_bind]
  refine endsE_select (fun w dt => ?_) fun _ => trivial
  split
  · rename_i current hcurrent
    rintro client ⟨⟩
    exact .head (Option.filter_eq_some_iff.1 hcurrent).1
  · rintro client ⟨⟩
  · rename_i uri _
    refine endsE_imp (fun _ _ h => ?_) (fun _ _ h => h) _ (Q := fun found tr =>
      ∀ client ∈ found, Saw (fun db => db.clients.get? clientId = some client) tr) (endsE_ite (fun _ => by rintro client ⟨⟩) fun _ => ?_)
    · exact fun client hclient => (h client hclient).cons
    · refine endsE_skip hlasting htrue fun found => ?_
      split
      · rintro client ⟨⟩
      · rename_i resource _
        dsimp only
        -- a document that cannot be fetched leaves no client
        rw [endsE_bind, endsE_tryCatch]
        refine endsE_imp (fun resolved tr h => ?_) (fun error tr _ => ?_) _ (honboard _ _ _)
        · refine endsE_ite (fun _ => ?_) fun _ => ?_
          · rw [endsE_bind]
            refine endsE_select (fun w dt => ?_) fun _ => trivial
            intro client hclient
            split at hclient
            · cases hclient
              exact h.left
            · cases hclient
          · rintro client ⟨⟩
            exact h.left
        · split <;> trivial

end

/-! ## Accepted requests -/

/-- The request names one client, enabled when it was read, and one redirect URI, which the client registered;
a metadata client may choose the port of a loopback URI. -/
structure ProvenClient (env : Env) (query : SearchParams) (clientId : String) (client : ClientRow) (redirectUri : String)
    (tr : Steps) : Prop where
  oneClientId : query.getAll "client_id" = [clientId]
  oneRedirectUri : query.getAll "redirect_uri" = [redirectUri]
  stored : Saw (fun db => db.clients.get? clientId = some client) tr
  enabled : client.enabled = true
  registered : redirectUri ∈ client.redirectUris ∨ (client.registrationType = .clientIdMetadata ∧
    ∃ registered ∈ client.redirectUris, LoopbackTwin env registered redirectUri)

/-- The redirect URI is the client's own, and the steps begin with the client's resolution. -/
structure ProvenRedirect (env : Env) (fetched : Option ClientIdMetadata) (query : SearchParams) (tr : Steps)
    (clientId : String) (client : ClientRow) (redirectUri : String) : Prop
    extends ProvenClient env query clientId client redirectUri tr where
  resolved : ∃ resourceUri tr₁ tr₂, tr = tr₁ ++ tr₂ ∧
    Path (resolveAuthorizationClient env fetched clientId resourceUri).run tr₁ (.done (.ok (some client)))

/-- The request is complete and within what the client and the resource allow. -/
structure CompleteRequest (query : SearchParams) (params : AuthorizeParams) (tr : Steps) : Prop where
  notRepeated : ∀ name ∈ SINGLE_PARAMETERS, (query.getAll name).length ≤ 1
  grantType : "authorization_code" ∈ params.client.allowedGrantTypes
  responseType : query.get "response_type" = some "code"
  codeChallenge : query.get "code_challenge" = some params.codeChallenge ∧ isValidS256Challenge params.codeChallenge = true ∧
    query.get "code_challenge_method" = some "S256"
  scopes : params.scopes = parseScopeString (query.get "scope") ∧ params.scopes ≠ []
  audience : AudienceGranted params.client params.resource params.scopes tr
  prompts : parsePrompts (query.get "prompt") = some params.prompts ∧ (.none ∈ params.prompts → params.prompts = [.none])
  maxAge : parseMaxAge (query.get "max_age") = some params.maxAge ∧ ∀ n ∈ params.maxAge, n ≤ MAX_SAFE_INTEGER

theorem CompleteRequest.sublist {query : SearchParams} {params : AuthorizeParams} {tr tr' : Steps}
    (h : CompleteRequest query params tr) (hsub : tr.Sublist tr') : CompleteRequest query params tr' :=
  { h with audience := h.audience.sublist hsub }

/-- `none` stands alone. -/
theorem none_alone {raw : Option String} {prompts : List AuthorizePrompt} (h : parsePrompts raw = some prompts)
    (hnone : .none ∈ prompts) : prompts = [.none] := by
  unfold parsePrompts at h
  split at h
  · cases h
    cases hnone
  · dsimp only at h
    split at h
    · cases h
    · rename_i values _
      split at h
      · cases h
      · rename_i hguard
        cases h
        simp only [Bool.or_eq_true, decide_eq_true_eq, Bool.and_eq_true, List.contains_iff_mem, not_or, not_and,
          not_not] at hguard
        obtain ⟨p, hp⟩ := List.length_eq_one_iff.1 (hguard.2 hnone)
        rw [hp, List.mem_singleton] at hnone
        rw [hp, hnone]

/-- An accepted age is a safe integer. -/
theorem maxAge_safe {raw : Option String} {maxAge : Option Nat} (h : parseMaxAge raw = some maxAge) {n : Nat}
    (hn : n ∈ maxAge) : n ≤ MAX_SAFE_INTEGER := by
  unfold parseMaxAge at h
  split at h
  · cases h
    cases hn
  · split at h
    · cases h
    · split at h
      · rename_i hsafe
        cases h
        cases hn
        exact hsafe
      · cases h

section

variable {env : Env} {fetched : Option ClientIdMetadata} {query : SearchParams} {clientId redirectUri : String}
  {client : ClientRow}

/-- The checks after the redirect URI answer with it, or accept a complete request. -/
theorem validateParams_ends (hyolo : env.yolo = false) :
    endsE (validateParams env query clientId client redirectUri)
      (fun v tr => match v with
        | .invalidRequestPage _ _ _ => False
        | .errorRedirect uri _ _ _ => uri = redirectUri
        | .ok params => params.clientId = clientId ∧ params.client = client ∧ params.redirectUri = redirectUri ∧
          CompleteRequest query params tr) fun _ _ => True := by
  unfold validateParams
  split
  · rfl
  · rename_i hsingle
    simp only [hyolo, Bool.not_false, Bool.true_and]
    refine endsE_ite (fun _ => rfl) fun hgrant => endsE_ite (fun _ => rfl) fun htype => endsE_ite (fun _ => rfl)
      fun hchallenge => endsE_ite (fun _ => rfl) fun hscopes => ?_
    -- prompts and age are read before the database is
    cases hprompts : parsePrompts (query.get "prompt") with
    | none => rfl
    | some prompts =>
      cases hage : parseMaxAge (query.get "max_age") with
      | none => rfl
      | some maxAge =>
        dsimp only
        rw [endsE_tryCatch, endsE_bind]
        refine endsE_imp (fun scopes tr h => ?_) (fun error tr _ => ?_) _ validateRequestedScopes_ends
        swap
        · split
          · rfl
          · trivial
        obtain ⟨rfl, -⟩ := h
        rw [endsE_bind]
        -- the audience the scopes are for
        refine endsE_imp (fun resource tr₁ haudience => ?_) (fun error tr₁ _ => ?_) _
          (resolveResourceForScopes_ends hyolo)
        swap
        · split
          · rfl
          · trivial
        refine ⟨rfl, rfl, rfl, ?_, ?_, ?_, ?_, ⟨rfl, ?_⟩, ?_, ⟨hprompts, none_alone hprompts⟩, hage, fun n => maxAge_safe hage⟩
        · simpa using hsingle
        · simpa using hgrant
        · simpa using htype
        · cases hcode : query.get "code_challenge" with
          | none => simp [hcode] at hchallenge
          | some challenge => simpa [hcode] using hchallenge
        · simpa using hscopes
        · exact haudience.sublist (by simp)

/-- The checks before: a page, or the checks after with a proven URI. -/
theorem validateAuthorizeRequest_ends (hyolo : env.yolo = false) :
    endsE (validateAuthorizeRequest env fetched query)
      (fun v tr => match v with
        | .invalidRequestPage _ _ _ => True
        | .errorRedirect redirectUri _ _ _ => ∃ clientId client, ProvenRedirect env fetched query tr clientId client redirectUri
        | .ok params => ProvenRedirect env fetched query tr params.clientId params.client params.redirectUri ∧
          CompleteRequest query params tr) fun _ _ => True := by
  unfold validateAuthorizeRequest
  refine endsE_ite (fun _ => trivial) fun _ => endsE_ite (fun _ => trivial) fun hone => ?_
  cases hid : query.get "client_id" with
  | none => trivial
  | some clientId =>
    have hclientId := SearchParams.getAll_of_length (not_not.1 hone) hid
    dsimp only
    -- the client, as the database or its document gives it
    rw [endsE_bind, endsE_tryCatch, map_eq_pure_bind, endsE_bind]
    refine endsE_imp (fun found tr h => ?_) (fun error tr _ => ?_) _ (endsE_path resolveAuthorizationClient_ends)
    swap
    · split <;> trivial
    obtain ⟨hpath, hstored⟩ := h
    rw [endsE_pure]
    dsimp only
    split
    · trivial
    · rename_i client hclient
      obtain ⟨rfl, henabled⟩ := Option.filter_eq_some_iff.1 hclient
      refine endsE_ite (fun _ => trivial) fun hone' => ?_
      cases huri : query.get "redirect_uri" with
      | none => trivial
      | some redirectUri =>
        have hredirectUri := SearchParams.getAll_of_length (not_not.1 hone') huri
        refine endsE_ite (fun _ => trivial) fun hregistered => ?_
        rw [hyolo, Bool.not_false, Bool.true_and, Bool.not_eq_true', Bool.not_eq_false, isRegisteredRedirectUri_iff]
          at hregistered
        -- client and redirect URI are proven: from here on errors may redirect
        have hproven : ∀ tr', ProvenRedirect env fetched query (tr ++ tr') clientId client redirectUri := fun tr' =>
          { oneClientId := hclientId, oneRedirectUri := hredirectUri, stored := (hstored client rfl).left, enabled := henabled,
            registered := hregistered, resolved := ⟨_, tr, tr', rfl, hpath⟩ }
        refine endsE_imp (fun v tr' h => ?_) (fun _ _ _ => trivial) _ (validateParams_ends hyolo)
        rw [List.append_nil]
        cases v with
        | invalidRequestPage => trivial
        | errorRedirect uri =>
          obtain rfl : uri = redirectUri := h
          exact ⟨clientId, client, hproven tr'⟩
        | ok params =>
          obtain ⟨rfl, rfl, rfl, hcomplete⟩ := h
          exact ⟨hproven tr', hcomplete.sublist (List.sublist_append_right tr tr')⟩

/-- A redirect goes to a proven URI only, and an accepted request is complete: for every query, whatever
the database holds and the fetch of a metadata document answers. -/
theorem validateAuthorizeRequest_admits (hyolo : env.yolo = false) {tr : Steps} {v : AuthorizeValidation}
    (h : Path (validateAuthorizeRequest env fetched query).run tr (.done (.ok v))) :
    (∀ redirectUri state error description, v = .errorRedirect redirectUri state error description →
      ∃ clientId client, ProvenRedirect env fetched query tr clientId client redirectUri) ∧
    ∀ params, v = .ok params → ProvenRedirect env fetched query tr params.clientId params.client params.redirectUri ∧
      CompleteRequest query params tr := by
  have hends := (endsE_iff.1 (validateAuthorizeRequest_ends hyolo)).1 tr v h
  clear h
  refine ⟨fun redirectUri state error description hv => ?_, fun params hv => ?_⟩ <;> rw [hv] at hends
  · exact hends
  · exact hends

end

/-! ## An accepted request -/

def sampleQuery : SearchParams :=
  [("client_id", "app"), ("redirect_uri", "https://app.example.com/callback"), ("response_type", "code"),
    ("scope", "openid offline_access"), ("resource", "https://api.example.com"), ("state", "xyz"),
    ("code_challenge", "E9Melhoa2OwvFrEMTJguCHaoeK1t8URWbuGJSstw-cM"), ("code_challenge_method", "S256"),
    ("max_age", "3600")]

def sampleParams : AuthorizeParams :=
  { clientId := "app", client := Deployment.client, redirectUri := "https://app.example.com/callback",
    scopes := ["openid", "offline_access"], resource := "https://api.example.com", state := some "xyz", nonce := none,
    codeChallenge := "E9Melhoa2OwvFrEMTJguCHaoeK1t8URWbuGJSstw-cM", prompts := [], maxAge := some 3600 }

theorem validateAuthorizeRequest_admits_sample : ∃ tr,
    Path (validateAuthorizeRequest Deployment.env none sampleQuery).run tr (.done (.ok (.ok sampleParams))) ∧
      ProvenRedirect Deployment.env none sampleQuery tr "app" Deployment.client "https://app.example.com/callback" ∧
      CompleteRequest sampleQuery sampleParams tr := by
  have hrun : (runOn Deployment.ok 20 (validateAuthorizeRequest Deployment.env none sampleQuery).run Deployment.world).map
      (·.1) = some (.ok (.ok sampleParams)) := by decide +kernel
  obtain ⟨⟨r, w'⟩, hrun, rfl⟩ := Option.map_eq_some_iff.1 hrun
  obtain ⟨tr, hpath⟩ := (runs_of_runOn hrun).path
  exact ⟨tr, hpath, (validateAuthorizeRequest_admits rfl hpath).2 sampleParams rfl⟩

end Keyforge.Authorize
